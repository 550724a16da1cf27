import TableClient.Store.Script

/-! Scripts written in JSON.

A script is an array of lanes, each an object with a `match` and an array of `replies`. A
reply has one member that says what it is, and may have a `delay_ms`. What a script heard
is written as an array for each lane. -/
namespace TableClient

/-- The service error of a code that an object describes. -/
def ServiceError.ofJson (code : ErrorCode) (j : Json) : ServiceError :=
  let e := withMessage code ((j.member "message").text?.getD code.name)
  { e with
    status := (j.member "status").nat?.getD e.status
    retryable := (j.member "retryable").bool?.getD false
    cause := (j.member "source").text? }

/-- The line of a reply. One that says nothing is an empty body. -/
def Line.ofJson (j : Json) : Line :=
  if let some value := j.member? "ok" then .body value
  else if let some e := j.member? "service" then
    .service (.ofJson (.ofType ((e.member "code").text?.getD "")) e)
  else if let some reason := (j.member "connection").text? then .connection reason
  else if let some message := (j.member "codec").text? then .codec message
  else if let some reply := j.member? "http" then
    .service (.ofReply ((reply.item 0).nat?.getD 0) (Text.toUtf8 ((reply.item 1).text?.getD "")))
  else if (j.member? "hang").isSome then .silence
  else .body (.obj [])

/-- A reply with its delay. -/
def Cue.ofJson (j : Json) : Cue :=
  { line := .ofJson j, delay := .ofMillis ((j.member "delay_ms").nat?.getD 0) }

/-- A lane. -/
def Lane.ofJson (j : Json) : Lane :=
  { pattern := (j.member "match").text?.getD ""
    cues := (j.member "replies").items.map Cue.ofJson }

/-- A script. -/
def Script.ofJson (j : Json) : Script := { lanes := j.items.map Lane.ofJson }

/-- A request as it was heard. -/
def Heard.toJson (h : Heard) : Json :=
  .obj [("at", .int h.time), ("op", .str h.op.name), ("request", h.request)]

/-- What each lane heard, in time. -/
def Script.laneReport (script : Script) : Json :=
  .arr (script.lanes.map fun lane => .arr ((inTime lane.heard).map Heard.toJson))

/-- What no lane took, in order. -/
def Script.otherReport (script : Script) : Json :=
  .arr ((inOrder script.others).map Heard.toJson)

end TableClient
