/-
  ValueRpc.Core.MessageType — message types (`valuerpc/protocol.go`) and what the client's read loop
  does with each (`valueclient/client.go`: `processResponse`).

  `processResponse` is given as the statements it takes; what a statement does is said where
  the request's record is.
-/

namespace ValueRpc.Core

inductive Kind where
  | unary
  | getStream
  | putStream
  | chat
  deriving DecidableEq, Repr

inductive MessageType where
  | handshakeRequest
  | handshakeResponse
  | functionRequest
  | functionResponse
  | getStreamRequest
  | putStreamRequest
  | chatRequest
  | errorResponse
  | streamReady
  | streamValue
  | streamEnd
  | cancelRequest
  | streamCredit
  deriving DecidableEq, Repr

/-- The number on the wire; 12 and 13 are reserved. -/
def MessageType.num : MessageType → Int
  | handshakeRequest => 0
  | handshakeResponse => 1
  | functionRequest => 2
  | functionResponse => 3
  | getStreamRequest => 4
  | putStreamRequest => 5
  | chatRequest => 6
  | errorResponse => 7
  | streamReady => 8
  | streamValue => 9
  | streamEnd => 10
  | cancelRequest => 11
  | streamCredit => 14

def Kind.request : Kind → MessageType
  | .unary => .functionRequest
  | .getStream => .getStreamRequest
  | .putStream => .putStreamRequest
  | .chat => .chatRequest

def MessageType.kind? : MessageType → Option Kind
  | .functionRequest => some .unary
  | .getStreamRequest => some .getStream
  | .putStreamRequest => some .putStream
  | .chatRequest => some .chat
  | _ => none

/-- A statement of `processResponse`. -/
inductive Statement where
  /-- `notifyResult` of the result, or of nil. -/
  | notifyResult
  /-- `notifyResult` of the payload, if there is one. -/
  | notifyPayload
  /-- `cancelOnce.Do`, if that returned false. -/
  | cancelOnce
  | setError
  | close
  | delete
  /-- `if TryGetClose() { Delete }`. -/
  | tryGetClose
  /-- `sendCredit.Grant`, if there is one. -/
  | grant
  deriving DecidableEq, Repr

def processResponse : MessageType → List Statement
  | .functionResponse => [.notifyResult, .close, .delete]
  | .errorResponse => [.setError, .close, .delete]
  | .streamReady => [.notifyResult]
  | .streamValue => [.notifyPayload, .cancelOnce]
  | .streamEnd => [.notifyPayload, .tryGetClose]
  | .cancelRequest => [.close, .delete]
  | .streamCredit => [.grant]
  | _ => []

end ValueRpc.Core
