import TableClient.Json.Printer
import TableClient.Store

/-! Scripted stores, for rehearsals.

A script has lanes, each with the replies that it gives, in order. A request goes to the
first lane whose pattern occurs in the request's line: the operation's name, and the
request as compact JSON with its members in order. A request that no lane takes, or that
comes to a lane without replies left, gets an empty reply. The script records what came
when. -/
namespace TableClient

/-- What a script says to a request. -/
inductive Line where
  | body (value : Json)
  | service (error : ServiceError)
  | connection (reason : String)
  | codec (message : String)
  | silence

/-- A reply of a script. -/
structure Cue where
  line : Line := .body (.obj [])
  /-- The time until it comes. -/
  delay : Duration := .ofNanos 0

/-- The error that a line is for a request of an operation, if it is one. -/
def Line.error? (op : Operation) : Line → Option TransportError
  | .service e => some (.service e)
  | .connection reason => some (.connection reason)
  | .codec message => some (.codec op message)
  | .body _ | .silence => none

/-- The response that a reply is to a request of an operation. A body that is no reply to it is
an error. -/
def Cue.response (cue : Cue) (op : Operation) : Response op :=
  match cue.line, cue.line.error? op with
  | .silence, _ => .never
  | .body value, _ =>
    match Wire.decode value with
    | .ok reply => .after cue.delay (.ok reply)
    | .error _ => .after cue.delay (.error (.codec op "undecodable"))
  | _, some e => .after cue.delay (.error e)
  | _, none => .never

/-- A request as a script records it. -/
structure Heard where
  time : Nat
  op : Operation
  request : Json

/-- The line of a request. -/
def Heard.text (h : Heard) : String := h.op.name ++ " " ++ h.request.render

/-- A part of a script. -/
structure Lane where
  pattern : String
  cues : List Cue := []
  heard : List Heard := []

namespace Lane

/-- Whether a text occurs in another. -/
def occurs (pattern : List Char) : List Char → Bool
  | [] => pattern.isEmpty
  | c :: rest => pattern.isPrefixOf (c :: rest) || occurs pattern rest

/-- Whether a lane takes a request. -/
def takes (lane : Lane) (h : Heard) : Bool := occurs lane.pattern.toList h.text.toList

end Lane

/-- A scripted store. -/
structure Script where
  lanes : List Lane := []
  /-- The requests that no lane took. -/
  others : List Heard := []

namespace Script

/-- Puts a request to lanes: the reply of the first that takes it, if one does. -/
def hear (h : Heard) : List Lane → Option (Cue × List Lane)
  | [] => none
  | lane :: rest =>
    if lane.takes h then
      let lane' := { lane with cues := lane.cues.tail, heard := lane.heard ++ [h] }
      some (lane.cues.headD {}, lane' :: rest)
    else do
      let (cue, rest) ← hear h rest
      return (cue, lane :: rest)

/-- Scripts as stores. -/
def store : Store Script := fun op request time script =>
  let h : Heard := ⟨time, op, (Wire.encode request).canonical⟩
  match hear h script.lanes with
  | some (cue, lanes) => (cue.response op, { script with lanes })
  | none => (({} : Cue).response op, { script with others := script.others ++ [h] })

/-- The number of replies of all lanes. -/
def length (script : Script) : Nat := (script.lanes.flatMap Lane.cues).length

/-- Requests in the order in which they came. -/
def inTime (heard : List Heard) : List Heard := heard.mergeSort fun a b => a.time ≤ b.time

/-- Requests in the order in which they came, those of one time by their lines. -/
def inOrder (heard : List Heard) : List Heard :=
  heard.mergeSort fun a b => a.time < b.time || (a.time = b.time && decide (a.text ≤ b.text))

end Script

end TableClient
