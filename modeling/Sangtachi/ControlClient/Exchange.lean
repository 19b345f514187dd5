import Sangtachi.ControlClient.Http

/-! # One request to the control server

The socket and the clock are the environment: what each call answers, and how many bytes each read
finds. -/
namespace Sangtachi.Exchange

open Sangtachi.Json (Bytes maxBodyBytes)
open Sangtachi.Http (Frame FrameState ResponseError frameResponse maxHeaderBytes)

/-- The most that one read takes. -/
def chunkBytes : ℕ := 2048

inductive TcpStatus where
  | ok | timedOut | aborted | closed | refused | error
  deriving DecidableEq, Repr

structure TcpResult where
  status : TcpStatus := .ok
  error : ℕ := 0
  deriving DecidableEq, Repr

inductive ExchangeStatus where
  | complete | socketError | connectFailed | connectTimeout | sendFailed | sendTimeout | recvFailed
  | recvTimeout | closedEarly | badResponse | aborted
  deriving DecidableEq, Repr

structure ExchangeResult where
  status : ExchangeStatus
  osError : ℕ := 0
  frameError : ResponseError := .none
  response : Bytes := []
  deriving DecidableEq, Repr

def fail (status : ExchangeStatus) (osError : ℕ := 0) : ExchangeResult :=
  { status := status, osError := osError }

def badResponse (error : ResponseError) : ExchangeResult :=
  { status := .badResponse, frameError := error }

/-- What the environment does in one turn of the loop: the clock, the wait, and the read, which
finds `piece` bytes if the peer has sent as many. -/
structure Turn where
  now : ℕ
  ready : TcpResult
  got : TcpResult
  piece : ℕ
  deriving DecidableEq, Repr

/-- How many bytes the loop asks for. -/
def want (frame : Frame) (received : Bytes) : ℕ :=
  if frame.needed ≠ 0 then frame.needed
  else if received.length < maxHeaderBytes then maxHeaderBytes - received.length
  else 0

/-- A read of at most `n` bytes of those that the peer has still to deliver. Behind the last one the
peer has closed. -/
def recvSome (t : Turn) (rest : Bytes) (n : ℕ) : TcpResult × ℕ :=
  match t.got.status with
  | .ok =>
    if rest = [] then ({ status := .closed }, 0) else
      (t.got, max 1 (min t.piece (min n rest.length)))
  | _ => (t.got, 0)

/-- One turn of the loop behind the decision that more is needed: how it ends, or what has been
received and what is left. -/
def receiveMore (ioMs start : ℕ) (t : Turn) (wanted : ℕ) (received rest : Bytes) :
    ExchangeResult ⊕ Bytes × Bytes :=
  if ioMs ≤ t.now - start then .inl (fail .recvTimeout)
  else
    match t.ready.status with
    | .aborted => .inl (fail .aborted)
    | .timedOut => .inl (fail .recvTimeout)
    | .closed => .inl (fail .recvFailed t.ready.error)
    | .refused => .inl (fail .recvFailed t.ready.error)
    | .error => .inl (fail .recvFailed t.ready.error)
    | .ok =>
      let (got, bytes) := recvSome t rest (min wanted chunkBytes)
      match got.status with
      | .ok => .inr (received ++ rest.take bytes, rest.drop bytes)
      | .closed => .inl (fail .closedEarly)
      | .timedOut => .inl (fail .recvTimeout)
      | .aborted => .inl (fail .aborted)
      | .refused => .inl (fail .recvFailed got.error)
      | .error => .inl (fail .recvFailed got.error)

/-- What the loop decides on the bytes received so far: how it ends, or how many more to ask for. -/
def judge (received : Bytes) : ExchangeResult ⊕ ℕ :=
  let frame := frameResponse received
  match frame.state with
  | .complete =>
    .inl { status := .complete, response := received.take (frame.headSize + frame.bodySize) }
  | .invalid => .inl (badResponse frame.error)
  | .needMore =>
    if want frame received = 0 then .inl (badResponse .headerTooLarge) else
      .inr (want frame received)

/-- The receive loop. It has not ended when the turns run out. -/
def receiveLoop (ioMs start : ℕ) : List Turn → Bytes → Bytes → Option ExchangeResult
  | turns, received, rest =>
    match judge received, turns with
    | .inl result, _ => some result
    | .inr _, [] => none
    | .inr wanted, t :: turns =>
      match receiveMore ioMs start t wanted received rest with
      | .inl result => some result
      | .inr (received, rest) => receiveLoop ioMs start turns received rest

/-- How the environment meets a request. -/
structure Connection where
  connected : Bool
  connect : TcpResult
  sent : TcpResult
  start : ℕ
  stream : Bytes
  turns : List Turn

def exchange (ioMs : ℕ) (c : Connection) : Option ExchangeResult :=
  if !c.connected then
    match c.connect.status with
    | .refused => some (fail .connectFailed c.connect.error)
    | .timedOut => some (fail .connectTimeout)
    | .aborted => some (fail .aborted)
    | .ok => some (fail .socketError c.connect.error)
    | .closed => some (fail .socketError c.connect.error)
    | .error => some (fail .socketError c.connect.error)
  else if c.sent.status = .timedOut then some (fail .sendTimeout)
  else if c.sent.status ≠ .ok then some (fail .sendFailed c.sent.error)
  else receiveLoop ioMs c.start c.turns [] c.stream

end Sangtachi.Exchange
