import TableClient.Text.Utf8
import TableClient.Wire.Record

/-! Errors that the service answers with.

An error has a code, one of those the service is known to use or a code for all others,
and comes as a JSON document in the body of a reply. A body that is no such document
still makes an error, whose message is the body itself. -/
namespace TableClient

/-- The codes of service errors. -/
inductive ErrorCode where
  | resourceNotFound
  | conditionalCheckFailed
  | transactionCanceled
  | transactionConflict
  | idempotentParameterMismatch
  | itemCollectionSizeLimitExceeded
  | provisionedThroughputExceeded
  | throttling
  | requestLimitExceeded
  | validation
  | serialization
  | internalServerError
  | serviceUnavailable
  | accessDenied
  | unrecognizedClient
  /-- Any other code. -/
  | unknown
deriving DecidableEq

namespace ErrorCode

instance : Inhabited ErrorCode := ⟨.validation⟩

/-- The codes that have a name of their own. -/
def known : List ErrorCode :=
  [.resourceNotFound, .conditionalCheckFailed, .transactionCanceled, .transactionConflict,
    .idempotentParameterMismatch, .itemCollectionSizeLimitExceeded, .provisionedThroughputExceeded,
    .throttling, .requestLimitExceeded, .validation, .serialization, .internalServerError,
    .serviceUnavailable, .accessDenied, .unrecognizedClient]

/-- The name of a code. -/
def name : ErrorCode → String
  | .resourceNotFound => "ResourceNotFoundException"
  | .conditionalCheckFailed => "ConditionalCheckFailedException"
  | .transactionCanceled => "TransactionCanceledException"
  | .transactionConflict => "TransactionConflictException"
  | .idempotentParameterMismatch => "IdempotentParameterMismatchException"
  | .itemCollectionSizeLimitExceeded => "ItemCollectionSizeLimitExceededException"
  | .provisionedThroughputExceeded => "ProvisionedThroughputExceededException"
  | .throttling => "ThrottlingException"
  | .requestLimitExceeded => "RequestLimitExceeded"
  | .validation => "ValidationException"
  | .serialization => "SerializationException"
  | .internalServerError => "InternalServerError"
  | .serviceUnavailable => "ServiceUnavailable"
  | .accessDenied => "AccessDeniedException"
  | .unrecognizedClient => "UnrecognizedClientException"
  | .unknown => "Unknown"

/-- What follows the last number sign of a text, or the whole text if it has none. -/
def afterLastHash (chars : List Char) : List Char :=
  (chars.reverse.takeWhile (· ≠ '#')).reverse

/-- The code of an error type, with or without a namespace before it. -/
def ofType (type : String) : ErrorCode :=
  let short := String.ofList (afterLastHash type.toList)
  (known.find? fun code => code.name = short).getD .unknown

/-- The HTTP status that goes with a code. -/
def defaultStatus : ErrorCode → Nat
  | .internalServerError | .unknown => 500
  | .serviceUnavailable => 503
  | _ => 400

end ErrorCode

/-- An error that the service answered with. -/
structure ServiceError where
  code : ErrorCode
  message : String
  status : Nat
  /-- Whether the failure is safe to retry whatever its code. -/
  retryable : Bool := false
  /-- The text of the error that caused this one. -/
  cause : Option String := none
deriving DecidableEq

namespace ServiceError

/-- An error of a code, with a message. -/
def withMessage (code : ErrorCode) (message : String) : ServiceError :=
  { code, message, status := code.defaultStatus }

/-- An error of a code, with its name as message. -/
def ofCode (code : ErrorCode) : ServiceError := withMessage code code.name

/-- The text of an error. -/
def text (e : ServiceError) : String :=
  "DynamoDBError(" ++ e.code.name ++ "): " ++ e.message

/-! ### Replies -/

/-- The document of an error reply: the error's type and its message. -/
structure Document where
  type : String
  message : Option String
deriving DecidableEq

instance Document.wire : Wire Document :=
  Fields.wire
    (.cons (.defaulted "__type" "") <|
      .cons { Field.optional "message" with beyond := .ok none } .nil)
    (fun (type, message, ()) => ⟨type, message⟩)
    (fun d => (d.type, d.message, ()))

/-- The same document with its message under its one name: services also write it with a
capital letter. -/
def oneSpelling : Json → Json
  | .obj members =>
    .obj (members.map fun (name, value) => (if name = "Message" then "message" else name, value))
  | other => other

/-- Reads the document of an error reply. -/
def readDocument (body : List UInt8) : Except DecodeFault Document := do
  let (value, clean) := Json.read body
  let document ← Wire.decode (oneSpelling value)
  if clean then return document else throw .shape

/-- The error of a reply with a status and a body. -/
def ofReply (status : Nat) (body : List UInt8) : ServiceError :=
  match readDocument body with
  | .ok document =>
    let code := ErrorCode.ofType document.type
    { withMessage code (document.message.getD code.name) with status }
  | .error _ => { withMessage .unknown (Text.lossy body) with status }

end ServiceError

end TableClient
