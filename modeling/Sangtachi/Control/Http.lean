import Sangtachi.Control.Service
import Sangtachi.Core.LazyTable

/-! # Connections of the control server

The rate table, one connection from its request to its response, and the event loop that runs the
connections. Between two beats of the loop every connection waits: for its request, for the thread
that runs the operation, or for its response to be sent. Times are nanoseconds. -/
namespace Sangtachi.Control.Http

def RATE_LIMIT_BUCKET : ℕ := 10
def RATE_LIMIT_REFILL_PER_MIN : ℕ := 10
def MAX_RATE_ENTRIES : ℕ := 4096
def MAX_INFLIGHT : ℕ := 32
def MAX_REJECTING : ℕ := 64

/-- `REFILL_INTERVAL_S`, in nanoseconds. -/
def REFILL_INTERVAL : ℕ := 60000000000 / RATE_LIMIT_REFILL_PER_MIN

def COUNTED_ERRORS : List ErrorCode := [.roomNotFound, .roomExpired, .unauthorized]

/-- The counters that the server shares with its rate table. -/
structure Counters where
  httpReadTimeout : ℕ
  internalError : ℕ
  rateLimited : ℕ
  rateTableFull : ℕ
  unavailable : ℕ
  deriving DecidableEq

/-- The tokens left, and the time of the last refill. -/
structure Bucket where
  tokens : ℕ
  since : ℕ
  deriving DecidableEq

/-- A bucket that reaches the cap is not kept. -/
def Bucket.refilled (e : Bucket) (now : ℕ) : Option Bucket :=
  let steps := (now - e.since) / REFILL_INTERVAL
  let e := if 0 < steps then ⟨e.tokens + steps, e.since + steps * REFILL_INTERVAL⟩ else e
  if RATE_LIMIT_BUCKET ≤ e.tokens then none else some e

variable {α : Type} [DecidableEq α]

/-- The buckets by source. A source without one has all its tokens. -/
structure RateTable (α : Type) [DecidableEq α] where
  entries : AList fun _ : α => Bucket
  counters : Counters

def RateTable.size (table : RateTable α) : ℕ := LazyTable.size table.entries

def RateTable.refill (table : RateTable α) (src : α) (now : ℕ) : RateTable α × Option Bucket :=
  let (entries, e) := LazyTable.refill (·.refilled now) table.entries src
  ({ table with entries := entries }, e)

def RateTable.exhausted (table : RateTable α) (src : α) (now : ℕ) : RateTable α × Bool :=
  let (table, e) := table.refill src now
  (table, e.any fun e => e.tokens == 0)

def RateTable.sweep (table : RateTable α) (now : ℕ) : RateTable α :=
  { table with entries := LazyTable.sweep (·.refilled now) table.entries }

/-- A token is taken from the bucket, or from a full one. -/
def Bucket.spent (now : ℕ) : Option Bucket → Bucket
  | some e => { e with tokens := e.tokens - 1 }
  | none => ⟨RATE_LIMIT_BUCKET - 1, now⟩

/-- A source that finds no room is let through. -/
def RateTable.spend (table : RateTable α) (src : α) (now : ℕ) : RateTable α :=
  match LazyTable.spend (·.refilled now) MAX_RATE_ENTRIES (Bucket.spent now) table.entries src with
  | (entries, true) => { table with entries := entries }
  | (entries, false) =>
    { table with
      entries := entries
      counters := { table.counters with rateTableFull := table.counters.rateTableFull + 1 } }

/-- What `read_request` raises: the texts of `_bad`, and the other codes of the parser. -/
inductive ParseError where
  | requestLine
  | methodNotAllowed
  | unknownOp
  | headerTooLarge
  | obsFold
  | headerLine
  | headerNameSpace
  | duplicateHeader
  | transferEncoding
  | lengthRequired
  | contentLength
  | bodyTooLarge
  | body
  deriving DecidableEq

def ParseError.error : ParseError → OpError
  | .requestLine => badRequest "bad request line"
  | .methodNotAllowed => opError .methodNotAllowed "method_not_allowed" 405
  | .unknownOp => Control.unknownOp
  | .headerTooLarge => opError .tooLarge "header too large" 431
  | .obsFold => badRequest "obs-fold"
  | .headerLine => badRequest "bad header line"
  | .headerNameSpace => badRequest "whitespace in header name"
  | .duplicateHeader => badRequest "duplicate header"
  | .transferEncoding => badRequest "transfer-encoding"
  | .lengthRequired => opError .lengthRequired "length_required" 411
  | .contentLength => badRequest "bad content-length"
  | .bodyTooLarge => opError .tooLarge "body too large" 413
  | .body => badRequest "body is not a utf-8 json object"

def rateLimited : OpError := opError .rateLimited "rate_limited" 429

def unavailable : OpError := opError .unavailable "unavailable" 503

/-- How `read_request` ends under its time limit. `failed` is any other exception. -/
inductive Reading where
  | request (req : Service.Request)
  | refused (error : ParseError)
  | timedOut
  | closed
  | failed

/-- How the thread that runs an operation ends. -/
inductive Outcome where
  | fields (value : Fields)
  | raised (error : OpError)
  | failed

inductive Response where
  | ok (fields : Fields)
  | error (error : OpError)
  deriving DecidableEq

/-- A guess that missed, or an expired room that was found. -/
def Response.counted : Response → Bool
  | .ok _ => false
  | .error e => e.code ∈ COUNTED_ERRORS

/-- Where `handle_request` stands after the request: at its answer, or waiting for the thread. -/
inductive Handled where
  | answer (out : Option Response)
  | dispatch (req : Service.Request)

def RateTable.internal (table : RateTable α) : RateTable α :=
  { table with
    counters := { table.counters with internalError := table.counters.internalError + 1 } }

/-- `handle_request` up to the thread. -/
def handleRequest (rate : RateTable α) (src : α) (now : ℕ) : Reading → RateTable α × Handled
  | .refused e => (rate, .answer (some (.error e.error)))
  | .timedOut =>
    ({ rate with
        counters := { rate.counters with httpReadTimeout := rate.counters.httpReadTimeout + 1 } },
      .answer none)
  | .closed => (rate, .answer none)
  | .failed => (rate.internal, .answer (some (.error (internalError "internal" internal_short))))
  | .request req =>
    let (rate, out) := rate.exhausted src now
    if out then
      ({ rate with
          counters := { rate.counters with rateLimited := rate.counters.rateLimited + 1 } },
        .answer (some (.error rateLimited)))
    else (rate, .dispatch req)

/-- `handle_request` from the thread on. -/
def handleOutcome (rate : RateTable α) (src : α) (now : ℕ) : Outcome → RateTable α × Response
  | .fields value => (rate, .ok value)
  | .raised e => (if e.code ∈ COUNTED_ERRORS then rate.spend src now else rate, .error e)
  | .failed => (rate.internal, .error (internalError "internal" internal_short))

inductive Phase where
  | reading
  | dispatching (req : Service.Request)
  | answering

def Phase.isDispatching : Phase → Bool
  | .dispatching _ => true
  | _ => false

/-- A connection that `inflight` counts. -/
structure Connection (α : Type) where
  src : α
  phase : Phase

structure Server (α : Type) [DecidableEq α] where
  rate : RateTable α
  connections : List (Connection α)
  rejecting : ℕ

def Server.inflight (s : Server α) : ℕ := s.connections.length

/-- What wakes the loop: a new connection, the `index`-th connection in flight, or the end of one
that is being refused. -/
inductive Beat (α : Type) where
  | connected (src : α)
  | read (index : ℕ) (result : Reading)
  | dispatched (index : ℕ) (result : Outcome)
  | answered (index : ℕ)
  | rejected

structure Sent (α : Type) where
  src : α
  response : Response
  deriving DecidableEq

/-- `on_connection` up to its first wait. -/
def Server.onConnection (s : Server α) (src : α) : Server α × Option (Sent α) :=
  if MAX_INFLIGHT ≤ s.inflight then
    let counters := s.rate.counters
    let rate :=
      { s.rate with counters := { counters with unavailable := counters.unavailable + 1 } }
    if MAX_REJECTING ≤ s.rejecting then ({ s with rate := rate }, none)
    else ({ s with rate := rate, rejecting := s.rejecting + 1 }, some ⟨src, .error unavailable⟩)
  else ({ s with connections := s.connections ++ [⟨src, .reading⟩] }, none)

/-- A connection waits for its answer to be sent; without one it ends at once. -/
def Server.answer (s : Server α) (index : ℕ) (src : α) :
    Option Response → Server α × Option (Sent α)
  | none => ({ s with connections := s.connections.eraseIdx index }, none)
  | some out =>
    ({ s with connections := s.connections.set index ⟨src, .answering⟩ }, some ⟨src, out⟩)

/-- One beat of the loop, with the response it sends. `none`: no connection waits for this. -/
def Server.beat (s : Server α) (now : ℕ) : Beat α → Option (Server α × Option (Sent α))
  | .connected src => some (s.onConnection src)
  | .read index result =>
    match s.connections[index]? with
    | some ⟨src, .reading⟩ =>
      match handleRequest s.rate src now result with
      | (rate, .answer out) => some ({ s with rate := rate }.answer index src out)
      | (rate, .dispatch req) =>
        some ({ s with
          rate := rate
          connections := s.connections.set index ⟨src, .dispatching req⟩ }, none)
    | _ => none
  | .dispatched index result =>
    match s.connections[index]? with
    | some ⟨src, .dispatching _⟩ =>
      let (rate, out) := handleOutcome s.rate src now result
      some ({ s with rate := rate }.answer index src (some out))
    | _ => none
  | .answered index =>
    match s.connections[index]? with
    | some ⟨_, .answering⟩ =>
      some ({ s with connections := s.connections.eraseIdx index }, none)
    | _ => none
  | .rejected =>
    if 0 < s.rejecting then some ({ s with rejecting := s.rejecting - 1 }, none) else none

def Server.initial : Server α := ⟨⟨∅, ⟨0, 0, 0, 0, 0⟩⟩, [], 0⟩

end Sangtachi.Control.Http
