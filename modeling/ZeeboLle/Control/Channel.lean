import ZeeboLle.Scheduling.Runs
import ZeeboLle.Streams.Frames
import ZeeboLle.Unicorn.Memory

/-! One connection of the control server: the debugging client, the thread that serves the
connection, the main loop that executes what is queued, and a stream of bytes each way.
Every party moves on its own, so a time-out may come at any point of a wait. The server is
not stopped and the client does not close. -/
namespace ZeeboLle.Control

open Unicorn Streams

def newline : Byte := 10
def carriageReturn : Byte := 13

def ascii (text : String) : List Byte := text.toList.map fun char => BitVec.ofNat 8 char.toNat

/-- Text without a line end. -/
structure Line where
  bytes : List Byte
  plain : newline ∉ bytes

/-- What `json.dumps` makes of a command: some text that does not end a line and has no
carriage return at its end. -/
structure Request extends Line where
  filled : bytes ≠ []
  closed : bytes.getLast? ≠ some carriageReturn

/-- `std::string::find` from a position on. -/
def find (text pattern : List Byte) (start : Nat) : Option Nat :=
  (List.range' start (text.length + 1 - start)).find? fun position =>
    (text.drop position).take pattern.length == pattern

/-- The text between the quotes that follow the colon that follows the key. -/
def extractString (text key : List Byte) : List Byte :=
  let pattern := ascii "\"" ++ key ++ ascii "\""
  ((find text pattern 0).bind fun k =>
    (find text (ascii ":") (k + pattern.length)).bind fun c =>
      (find text (ascii "\"") (c + 1)).bind fun q =>
        (find text (ascii "\"") (q + 1)).map fun e =>
          (text.drop (q + 1)).take (e - q - 1)).getD []

/-- `line.pop_back()` of one carriage return. -/
def trimReturn (line : List Byte) : List Byte :=
  if line.getLast? = some carriageReturn then line.dropLast else line

def parseError : Line := ⟨ascii "\x7b\"ok\":false,\"error\":\"parse\"\x7d", by decide +kernel⟩
def timeoutError : Line := ⟨ascii "\x7b\"ok\":false,\"error\":\"timeout\"\x7d", by decide +kernel⟩

def requestTooLarge : Line :=
  ⟨ascii "\x7b\"ok\":false,\"error\":\"request_too_large\"\x7d", by decide +kernel⟩

/-- A queued request with its promise. -/
structure Pending where
  id : Nat
  line : List Byte
deriving DecidableEq

/-- The thread that serves the connection: between lines, in `Dispatch` for a request, or
gone. -/
inductive Handler where
  | reading
  | waiting (id : Nat)
  | closed
deriving DecidableEq

/-- The client: between calls, or in `rpc` with what it has received of a reply. -/
inductive Client where
  | idle
  | waiting (data : List Byte)
deriving DecidableEq

/-- How a call of `rpc` ended: with a line end in what it received, at the end of the
stream, or by its own time-out. -/
inductive Outcome where
  | reply (data : List Byte)
  | eof (data : List Byte)
  | timeout
deriving DecidableEq

/-- The connection, with the record of what was called, replied, executed, returned and
answered with a time-out so far. -/
structure Channel where
  toServer : List Byte
  toClient : List Byte
  buf : List Byte
  handler : Handler
  queue : List Pending
  batch : List Pending
  promises : Nat → Option Line
  client : Client
  calls : List Request
  replies : List Line
  executed : List Pending
  returned : List (Nat × Outcome)
  timedOut : List Nat

namespace Channel

def start : Channel where
  toServer := []
  toClient := []
  buf := []
  handler := .reading
  queue := []
  batch := []
  promises := fun _ => none
  client := .idle
  calls := []
  replies := []
  executed := []
  returned := []
  timedOut := []

variable (channel : Channel)

/-- A reply line on its way to the client. -/
def write (reply : Line) : Channel :=
  { channel with
    toClient := channel.toClient ++ (reply.bytes ++ [newline])
    replies := channel.replies ++ [reply] }

/-- `recv` of up to 1024 bytes, when no whole line is left in the buffer. -/
def serverRecv (count : Nat) : Channel :=
  if channel.handler = .reading ∧ newline ∉ channel.buf then
    let count := min count 1024
    let buf := channel.buf ++ channel.toServer.take count
    let channel := { channel with buf, toServer := channel.toServer.drop count }
    if buf.length > 16384 then { channel.write requestTooLarge with handler := .closed }
    else channel
  else channel

/-- The next line of the buffer: empty lines are skipped, others answered or queued. -/
def dispatch : Channel :=
  if channel.handler = .reading ∧ newline ∈ channel.buf then
    let line := trimReturn (takeLine newline channel.buf).1
    let channel := { channel with buf := (takeLine newline channel.buf).2 }
    if line = [] then channel
    else if extractString line (ascii "cmd") = [] then channel.write parseError
    else
      { channel with
        queue := channel.queue ++ [⟨channel.replies.length, line⟩]
        handler := .waiting channel.replies.length }
  else channel

/-- The promise is kept in time. -/
def answer : Channel :=
  match channel.handler with
  | .waiting id =>
    match channel.promises id with
    | some reply => { channel.write reply with handler := .reading }
    | none => channel
  | _ => channel

/-- `wait_for` runs out; the request stays where it is. -/
def serverTimeout : Channel :=
  match channel.handler with
  | .waiting id =>
    match channel.promises id with
    | some _ => channel
    | none =>
      { channel.write timeoutError with handler := .reading, timedOut := channel.timedOut ++ [id] }
  | _ => channel

/-- `Drain`, once the last batch is done. -/
def drain : Channel :=
  if channel.batch = [] then { channel with batch := channel.queue, queue := [] } else channel

/-- `process_control_request` on the next of the batch. -/
def execute (reply : Line) : Channel :=
  match channel.batch with
  | [] => channel
  | pending :: rest =>
    { channel with
      batch := rest
      executed := channel.executed ++ [pending]
      promises := Function.update channel.promises pending.id (some reply) }

/-- The number of the call under way. -/
def current : Nat := channel.calls.length - 1

/-- `rpc` ends. -/
def finish (outcome : Outcome) : Channel :=
  { channel with client := .idle, returned := channel.returned ++ [(channel.current, outcome)] }

def call (request : Request) : Channel :=
  match channel.client with
  | .idle =>
    { channel with
      toServer := channel.toServer ++ (request.bytes ++ [newline])
      client := .waiting []
      calls := channel.calls ++ [request] }
  | .waiting _ => channel

/-- `recv` of up to 4096 bytes; a line end in what has come ends the call. -/
def clientRecv (count : Nat) : Channel :=
  match channel.client with
  | .idle => channel
  | .waiting data =>
    let count := min count 4096
    let data := data ++ channel.toClient.take count
    let channel := { channel with toClient := channel.toClient.drop count, client := .waiting data }
    if newline ∈ data then channel.finish (.reply data) else channel

/-- What has come of the reply is dropped; the rest of it is still to come. -/
def clientTimeout : Channel :=
  match channel.client with
  | .idle => channel
  | .waiting _ =>
    { channel.finish .timeout with timedOut := channel.timedOut ++ [channel.current] }

def clientEof : Channel :=
  match channel.client with
  | .idle => channel
  | .waiting data =>
    if channel.handler = .closed ∧ channel.toClient = [] then channel.finish (.eof data) else channel

end Channel

/-- Everything that can happen next. What is not due changes nothing. -/
inductive Action where
  | call (request : Request)
  | serverRecv (count : Nat)
  | dispatch
  | answer
  | serverTimeout
  | drain
  | execute (reply : Line)
  | clientRecv (count : Nat)
  | clientTimeout
  | clientEof

def Channel.step (channel : Channel) : Action → Channel
  | .call request => channel.call request
  | .serverRecv count => channel.serverRecv count
  | .dispatch => channel.dispatch
  | .answer => channel.answer
  | .serverTimeout => channel.serverTimeout
  | .drain => channel.drain
  | .execute reply => channel.execute reply
  | .clientRecv count => channel.clientRecv count
  | .clientTimeout => channel.clientTimeout
  | .clientEof => channel.clientEof

def Channel.run (channel : Channel) (actions : List Action) : Channel := actions.foldl step channel

end ZeeboLle.Control
