import TableClient.Store

/-! Stores reached over HTTP.

A request is posted as a JSON document to one endpoint; a header names the operation. A
reply with a status of success holds the answer, any other a service error. A connection
that ends without a reply is an error of its own. -/
namespace TableClient.Http

/-- A request on its way. -/
structure Post where
  path : String
  target : String
  body : Json

namespace Post

/-- The type of every request's body. -/
def contentType : String := "application/x-amz-json-1.0"

/-- The first line of a request. The empty path is written as a slash. -/
def requestLine (post : Post) : String :=
  "POST " ++ (if post.path.isEmpty then "/" else post.path) ++ " HTTP/1.1"

/-- The request for an operation. -/
def ofRequest (path : String) (op : Operation) (request : op.Request) : Post :=
  ⟨path, op.target, Wire.encode request⟩

end Post

/-- What comes back. -/
inductive Reply where
  | status (code : Nat) (body : List UInt8)
  /-- The connection ends. -/
  | dropped

/-- Whether a status is one of success. -/
def isSuccess (status : Nat) : Bool := 200 ≤ status && status < 300

/-- The result that a reply is. -/
def Reply.result (op : Operation) : Reply → Except TransportError op.Reply
  | .status code body =>
    if isSuccess code then
      match Wire.decodeText body with
      | .ok reply => .ok reply
      | .error _ => .error (.codec op "undecodable")
    else .error (.service (.ofReply code body))
  | .dropped => .error (.connection "closed")

/-- A server with replies in store. -/
structure Server where
  path : String
  replies : List Reply
  /-- Whether connections reach the server at all. -/
  listening : Bool := true
  posts : List Post := []

namespace Server

/-- The empty answer. -/
def empty : Reply := .status 200 (Text.toUtf8 "\x7b\x7d")

/-- Servers as stores. When nothing is left in store the answer is empty. A server that is not
listening sees no request. -/
def store : Store Server := fun op request _ server =>
  if server.listening then
    let reply := server.replies.headD empty
    (.now (reply.result op),
      { server with
        replies := server.replies.tail
        posts := server.posts ++ [.ofRequest server.path op request] })
  else (.now (.error (.connection "refused")), server)

end Server

end TableClient.Http
