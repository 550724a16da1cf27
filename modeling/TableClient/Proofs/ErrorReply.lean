import TableClient.Proofs.Play
import TableClient.Proofs.Reading
import TableClient.Retry
import TableClient.Service.Error
import Mathlib.Data.List.DropRight

/-! What becomes of an error that the service answers with.

The type of an error names its code, with or without a namespace (`ErrorCode.ofType_of_isNamedBy`).
The code is kept where the document around it can be read (`IsLegible`): all members have names, and
of the two spellings of its message one is written at most, with a text or null for value; whatever
else there is does not matter. One member that is otherwise costs the whole document, its type
included, and leaves an error of an unknown code (`ofReply_eq_of_isNamedBy`). Whether there is
another attempt then hangs on the code, or on the status where the code is not known. -/
namespace TableClient

/-! ### Codes and types -/

namespace ErrorCode

/-- A type names a code: it is the code's name, alone or after a namespace. -/
def IsNamedBy (code : ErrorCode) (type : String) : Prop :=
  type = code.name ∨ ∃ space, type = space ++ "#" ++ code.name

/-- An error of a code and a status says that the service is at fault. -/
def IsServiceFault (code : ErrorCode) (status : Nat) : Prop :=
  code ∈ [internalServerError, serviceUnavailable, throttling, provisionedThroughputExceeded,
    requestLimitExceeded] ∨ code = unknown ∧ 500 ≤ status ∧ status < 600

theorem hash_not_mem_name (code : ErrorCode) : '#' ∉ code.name.toList := by
  cases code <;> decide

theorem afterLastHash_of_not_mem {chars : List Char} (h : '#' ∉ chars) :
    afterLastHash chars = chars :=
  List.rtakeWhile_eq_self_iff.2 fun _ hc => decide_eq_true (ne_of_mem_of_not_mem hc h)

theorem afterLastHash_append {chars : List Char} (before : List Char) (h : '#' ∉ chars) :
    afterLastHash (before ++ '#' :: chars) = chars := by
  have hchars : ∀ c ∈ chars.reverse, decide (c ≠ '#') = true := fun _ hc =>
    decide_eq_true (ne_of_mem_of_not_mem (List.mem_reverse.1 hc) h)
  have htake : (before ++ '#' :: chars).reverse.takeWhile (· ≠ '#') = chars.reverse := by
    rw [List.reverse_append, List.reverse_cons, List.append_assoc,
      List.takeWhile_append_of_pos hchars]
    simp
  rw [afterLastHash, htake, List.reverse_reverse]

/-- No two codes have the same name, and only one has the name of none. -/
theorem find?_name (code : ErrorCode) :
    (known.find? fun other => other.name = code.name).getD .unknown = code := by
  cases code <;> decide

theorem ofType_of_isNamedBy {code : ErrorCode} {type : String} (h : code.IsNamedBy type) :
    ofType type = code := by
  have hshort : String.ofList (afterLastHash type.toList) = code.name := by
    rcases h with rfl | ⟨space, rfl⟩
    · rw [afterLastHash_of_not_mem code.hash_not_mem_name, String.ofList_toList]
    · rw [String.toList_append, String.toList_append, List.append_assoc]
      exact (congrArg String.ofList
        (afterLastHash_append space.toList code.hash_not_mem_name)).trans String.ofList_toList
  unfold ofType
  rw [hshort]
  exact code.find?_name

end ErrorCode

/-! ### Documents -/

namespace ServiceError
open Json

variable {members : List (String × Json)} {message : Option String}

/-- The values of all messages of a document, under either spelling. -/
def messages (members : List (String × Json)) : List Json :=
  (members.filter fun member => member.1 = "message" ∨ member.1 = "Message").map Prod.snd

/-- What a message is read from: no message or null, or one text. -/
inductive IsMessage : List Json → Option String → Prop
  | nothing : IsMessage [] none
  | null : IsMessage [.null] none
  | text (text : String) : IsMessage [.str text] (some text)

/-- A document with a message that can be read around its type. -/
structure IsLegible (members : List (String × Json)) (message : Option String) : Prop where
  /-- No member has half a surrogate pair in its name. -/
  named : ∀ member ∈ members, member.2 ≠ .fault .unreadableName
  message : IsMessage (messages members) message

/-- A member under the one spelling of its name. -/
def respell (member : String × Json) : String × Json :=
  (if member.1 = "Message" then "message" else member.1, member.2)

theorem oneSpelling_obj (members : List (String × Json)) :
    oneSpelling (.obj members) = .obj (members.map respell) := rfl

theorem valuesOf_type_respell (members : List (String × Json)) :
    valuesOf "__type" (members.map respell) = valuesOf "__type" members := by
  have hname (member : String × Json) :
      (respell member).1 = "__type" ↔ member.1 = "__type" := by
    unfold respell
    split
    · next h => simp [h]
    · rfl
  simp only [valuesOf, List.filter_map, List.map_map, Function.comp_def, hname]
  rfl

theorem valuesOf_message_respell (members : List (String × Json)) :
    valuesOf "message" (members.map respell) = messages members := by
  have hname (member : String × Json) :
      (respell member).1 = "message" ↔ member.1 = "message" ∨ member.1 = "Message" := by
    unfold respell
    split
    · next h => simp [h]
    · next h => simp [h]
  simp only [valuesOf, messages, List.filter_map, List.map_map, Function.comp_def, hname]
  rfl

/-- The field of a message. -/
def messageField : Field (Option String) :=
  { Field.optional "message" with beyond := .ok none }

theorem takes_type_iff {type : String} {slot : Option String} :
    (Field.defaulted "__type" "").Takes [.str type] none slot ↔ slot = some type := by
  constructor
  · rintro (_ | hread)
    cases hread
    rfl
  · rintro rfl
    exact .one rfl

theorem takes_message_iff {values : List Json} :
    (∃ slot, messageField.Takes values none slot ∧ slot.getD none = message) ↔
      IsMessage values message := by
  constructor
  · rintro ⟨slot, hslot, rfl⟩
    cases hslot with
    | none => exact .nothing
    | @one value b hread =>
      cases value with
      | null =>
        cases hread
        exact .null
      | str text =>
        cases hread
        exact .text text
      | _ => cases hread
  · rintro (_ | _ | text)
    · exact ⟨none, .none _, rfl⟩
    · exact ⟨some none, .one rfl, rfl⟩
    · exact ⟨some (some text), .one rfl, rfl⟩

/-- The fields of a document. -/
def documentFields : Fields (String × Option String × Unit) :=
  .cons (.defaulted "__type" "") (.cons messageField .nil)

/-- The slots that members fill: those of the type and of the message, each off its own. -/
theorem readMembers_document_iff (hnamed : ∀ member ∈ members, IsNamed member)
    (hskippable : ∀ member ∈ members, member.2.skippable = true) {slots : documentFields.Slots} :
    documentFields.readMembers members documentFields.unread = .ok slots ↔
      (Field.defaulted "__type" "").Takes (valuesOf "__type" members) none slots.1 ∧
        messageField.Takes (valuesOf "message" members) none slots.2.1 := by
  let others := members.filter fun member => member.1 ≠ "__type"
  let passed := others.filter fun member => member.1 ≠ "message"
  have hothers : ∀ member ∈ others, IsNamed member :=
    fun member hmember => hnamed member (List.mem_of_mem_filter hmember)
  have hpassed : Fields.nil.readMembers passed () = .ok () := by
    refine (Fields.readMembers_nil_iff fun member hmember => ?_).2 fun member hmember => ?_
    · exact hothers member (List.mem_of_mem_filter hmember)
    · exact hskippable member (List.mem_of_mem_filter (List.mem_of_mem_filter hmember))
  have hmessage : (Fields.cons messageField .nil).readMembers others (none, ()) = .ok slots.2 ↔
      messageField.Takes (valuesOf "message" others) none slots.2.1 ∧
        Fields.nil.readMembers passed () = .ok () := Fields.readMembers_cons_iff hothers
  rw [← valuesOf_filter_ne (by decide : "message" ≠ "__type") members]
  refine (Fields.readMembers_cons_iff hnamed).trans (and_congr_right fun _ => hmessage.trans ?_)
  exact and_iff_left hpassed

/-- A document is made of the slots that its members fill. -/
theorem decode_obj_iff {document : Document} :
    Wire.decode (.obj members) = Except.ok document ↔
      ∃ slots, documentFields.readMembers members documentFields.unread = .ok slots ∧
        ⟨slots.1.getD "", slots.2.1.getD none⟩ = document := by
  have hfinish (slots : documentFields.Slots) :
      documentFields.finish slots = .ok (slots.1.getD "", slots.2.1.getD none, ()) := by
    obtain ⟨type, message, -⟩ := slots
    cases type <;> cases message <;> rfl
  constructor
  · intro h
    obtain ⟨p, hread, h⟩ := exists_of_bind_eq_ok h
    obtain ⟨slots, hslots, hp⟩ := exists_of_bind_eq_ok hread
    obtain rfl := Except.ok.inj ((hfinish slots).symm.trans hp)
    exact ⟨slots, hslots, Except.ok.inj h⟩
  · rintro ⟨slots, hslots, rfl⟩
    have hread : documentFields.read (.obj members) =
        .ok (slots.1.getD "", slots.2.1.getD none, ()) := by
      rw [← hfinish]
      exact congrArg (· >>= documentFields.finish) hslots
    exact congrArg (· >>= fun p => pure (⟨p.1, p.2.1⟩ : Document)) hread

/-- The document of an object with a type can be read where the object is legible. -/
theorem decode_oneSpelling_iff {type : String} {document : Document}
    (hskippable : ∀ member ∈ members, member.2.skippable = true)
    (htype : valuesOf "__type" members = [.str type]) :
    (Wire.decode (oneSpelling (.obj members)) = .ok document) ↔
      document.type = type ∧ IsLegible members document.message := by
  rw [oneSpelling_obj, decode_obj_iff]
  have hrespelled : ∀ member ∈ members.map respell, member.2.skippable = true := by
    rintro _ hmember
    obtain ⟨member, hmem, rfl⟩ := List.mem_map.1 hmember
    exact hskippable member hmem
  constructor
  · rintro ⟨slots, hslots, rfl⟩
    have hnamed := Fields.isNamed_of_readMembers hslots
    obtain ⟨htakes, hmessage⟩ := (readMembers_document_iff hnamed hrespelled).1 hslots
    rw [valuesOf_type_respell, htype, takes_type_iff] at htakes
    rw [valuesOf_message_respell] at hmessage
    refine ⟨by rw [htakes]; rfl, fun member hmember => ?_, ?_⟩
    · exact (hnamed _ (List.mem_map_of_mem hmember)).2
    · exact takes_message_iff.1 ⟨_, hmessage, rfl⟩
  · obtain ⟨type', message⟩ := document
    rintro ⟨rfl, hlegible⟩
    obtain ⟨slot, hslot, rfl⟩ := takes_message_iff.2 hlegible.message
    have hnamed : ∀ member ∈ members.map respell, IsNamed member := by
      rintro _ hmember
      obtain ⟨member, hmem, rfl⟩ := List.mem_map.1 hmember
      refine ⟨fun htorn => ?_, hlegible.named member hmem⟩
      have h := hskippable member hmem
      rw [show member.2 = _ from htorn] at h
      cases h
    refine ⟨(some type', slot, ()), (readMembers_document_iff hnamed hrespelled).2 ⟨?_, ?_⟩, rfl⟩
    · rw [valuesOf_type_respell, htype]
      exact takes_type_iff.2 rfl
    · rw [valuesOf_message_respell]
      exact hslot

theorem readDocument_of_read {body : List UInt8} {value : Json}
    (h : Json.read body = (value, true)) :
    readDocument body = Wire.decode (oneSpelling value) := by
  unfold readDocument
  rw [h]
  dsimp only
  cases (Wire.decode (oneSpelling value) : Except DecodeFault Document) <;> rfl

/-- The error of a document that can be read has the code that its type names. -/
theorem ofReply_of_isLegible (status : Nat) {body : List UInt8} {type : String} {code : ErrorCode}
    (hbody : Json.read body = (.obj members, true))
    (htype : valuesOf "__type" members = [.str type]) (hcode : code.IsNamedBy type)
    (h : IsLegible members message) :
    ofReply status body = { code, message := message.getD code.name, status } := by
  have hdocument : readDocument body = .ok ⟨type, message⟩ := by
    rw [readDocument_of_read hbody]
    exact (decode_oneSpelling_iff (skippable_of_read hbody) htype).2 ⟨rfl, h⟩
  unfold ofReply
  rw [hdocument]
  dsimp only
  rw [ErrorCode.ofType_of_isNamedBy hcode]
  rfl

/-- The error of a document that cannot be read has no code, whatever its type. -/
theorem ofReply_of_not_isLegible (status : Nat) {body : List UInt8} {type : String}
    (hbody : Json.read body = (.obj members, true))
    (htype : valuesOf "__type" members = [.str type]) (h : ∀ message, ¬IsLegible members message) :
    ofReply status body = { code := .unknown, message := Text.lossy body, status } := by
  unfold ofReply
  cases hdocument : readDocument body with
  | error fault => rfl
  | ok document =>
    rw [readDocument_of_read hbody] at hdocument
    have hread := (decode_oneSpelling_iff (skippable_of_read hbody) htype).1 hdocument
    exact absurd hread.2 (h _)

/-! ### Attempts after an error -/

/-- An error is transient: another attempt follows as long as attempts are left. -/
structure IsRetried (e : ServiceError) : Prop where
  transient : Failure.ofTransport (.service e) = .transient (.service e)
  again (s : Settings) (op : Operation) (request : op.Request) (more attempt : Nat)
    (es : List Exchange) (result : Option (Outcome op.Reply)) :
    (attempts s op request (more + 1) attempt).Plays
        (⟨op, request, .failed (.service e)⟩ :: es) result ↔
      (attempts s op request more (attempt + 1)).Plays es result

/-- An error is fatal: no other attempt follows, however many are left. -/
structure IsFinal (e : ServiceError) : Prop where
  fatal : Failure.ofTransport (.service e) = .fatal (.service e)
  last (s : Settings) (op : Operation) (request : op.Request) (more attempt : Nat)
    (es : List Exchange) (result : Option (Outcome op.Reply)) :
    (attempts s op request more attempt).Plays
        (⟨op, request, .failed (.service e)⟩ :: es) result ↔
      es = [] ∧ result = some (.error (.fatal (.service e)))

variable {e : ServiceError}

/-- An error that is not flagged as worth another attempt is worth it by its code and status. -/
theorem isRetryable_iff (h : e.retryable = false) :
    (TransportError.service e).isRetryable = true ↔ e.code.IsServiceFault e.status := by
  obtain ⟨code, message, status, retryable, cause⟩ := e
  obtain rfl : retryable = false := h
  cases code <;> simp [TransportError.isRetryable, TransportError.isServiceFault,
    TransportError.isServerStatus, ErrorCode.IsServiceFault]

theorem isRetried_of_isServiceFault (h : e.retryable = false)
    (hfault : e.code.IsServiceFault e.status) : e.IsRetried := by
  have htransient : Failure.ofTransport (.service e) = .transient (.service e) :=
    if_pos ((isRetryable_iff h).2 hfault)
  refine ⟨htransient, fun s op request more attempt es result => ?_⟩
  rw [attempts, Dialogue.plays_ask_cons]
  simp only [Arrival.outcome, htransient, Failure.isRetryable, if_true]
  exact Dialogue.plays_pause

theorem isFinal_of_not_isServiceFault (h : e.retryable = false)
    (hfault : ¬e.code.IsServiceFault e.status) : e.IsFinal := by
  have hfatal : Failure.ofTransport (.service e) = .fatal (.service e) :=
    if_neg fun hretryable => hfault ((isRetryable_iff h).1 hretryable)
  refine ⟨hfatal, fun s op request more attempt es result => ?_⟩
  -- an attempt ends the same way whether or not it is the last that is allowed
  cases more with
  | zero =>
    rw [attempts, Dialogue.plays_ask_cons]
    simp only [Arrival.outcome, hfatal]
    exact Dialogue.plays_done
  | succ more =>
    rw [attempts, Dialogue.plays_ask_cons]
    simp only [Arrival.outcome, hfatal, Failure.isRetryable, Bool.false_eq_true, if_false]
    exact Dialogue.plays_done

/-! ### Error replies -/

/-- **The error of a reply keeps the code that its type names, if the rest of its document can be
read.** Then it is followed by another attempt exactly if the code says that the service is at
fault. Otherwise the code is lost whatever the type says, and only the status decides: a throttled
request whose reply writes its message under both names is not sent again. -/
theorem ofReply_eq_of_isNamedBy (status : Nat) {body : List UInt8} {members : List (String × Json)}
    {type : String} {code : ErrorCode} (hbody : Json.read body = (.obj members, true))
    (htype : valuesOf "__type" members = [.str type]) (hcode : code.IsNamedBy type) :
    (∀ message, IsLegible members message →
      ofReply status body = { code, message := message.getD code.name, status } ∧
      (code.IsServiceFault status → (ofReply status body).IsRetried) ∧
      (¬code.IsServiceFault status → (ofReply status body).IsFinal)) ∧
    ((∀ message, ¬IsLegible members message) →
      ofReply status body = { code := .unknown, message := Text.lossy body, status } ∧
      (500 ≤ status ∧ status < 600 → (ofReply status body).IsRetried) ∧
      (¬(500 ≤ status ∧ status < 600) → (ofReply status body).IsFinal)) := by
  constructor
  · intro message hlegible
    have hreply := ofReply_of_isLegible status hbody htype hcode hlegible
    rw [hreply]
    exact ⟨rfl, fun h => isRetried_of_isServiceFault rfl h,
      fun h => isFinal_of_not_isServiceFault rfl h⟩
  · intro hillegible
    have hreply := ofReply_of_not_isLegible status hbody htype hillegible
    rw [hreply]
    have hfault : ErrorCode.unknown.IsServiceFault status ↔ 500 ≤ status ∧ status < 600 := by
      simp [ErrorCode.IsServiceFault]
    exact ⟨rfl, fun h => isRetried_of_isServiceFault rfl (hfault.2 h),
      fun h => isFinal_of_not_isServiceFault rfl fun hcode => h (hfault.1 hcode)⟩

/-- The body of a reply to a throttled request, with messages under these names. -/
def throttledBody (names : List String) : List UInt8 :=
  Text.toUtf8 ("\x7b\"__type\":\"dynamodb#ThrottlingException\"" ++
    String.join (names.map fun name => ",\"" ++ name ++ "\":\"slow\"") ++ "\x7d")

/-- The members of that body. -/
def throttledMembers (names : List String) : List (String × Json) :=
  ("__type", .str "dynamodb#ThrottlingException") ::
    names.map fun name => (name, .str "slow")

theorem throttling_isNamedBy :
    ErrorCode.throttling.IsNamedBy "dynamodb#ThrottlingException" :=
  .inr ⟨"dynamodb", rfl⟩

theorem read_throttledBody_once :
    Json.read (throttledBody ["Message"]) =
      (.obj (throttledMembers ["Message"]), true) := by
  have h : (Json.read (throttledBody ["Message"])).map texts? id =
      (some [("__type", "dynamodb#ThrottlingException"), ("Message", "slow")], true) := by
    decide +kernel
  exact read_of_texts? h

theorem read_throttledBody_twice :
    Json.read (throttledBody ["message", "Message"]) =
      (.obj (throttledMembers ["message", "Message"]), true) := by
  have h : (Json.read (throttledBody ["message", "Message"])).map texts? id =
      (some [("__type", "dynamodb#ThrottlingException"), ("message", "slow"), ("Message", "slow")],
        true) := by
    decide +kernel
  exact read_of_texts? h

/-- With two messages there is none to be read. -/
theorem not_isLegible_twice (message : Option String) :
    ¬IsLegible (throttledMembers ["message", "Message"]) message := by
  intro h
  cases h.message

/-- A throttled request is sent again if the reply writes its message under one name, and is not
if it writes it under both. -/
theorem ofReply_throttledBody :
    ((ofReply 400 (throttledBody ["Message"])).code = .throttling ∧
      (ofReply 400 (throttledBody ["Message"])).IsRetried) ∧
    ((ofReply 400 (throttledBody ["message", "Message"])).code = .unknown ∧
      (ofReply 400 (throttledBody ["message", "Message"])).IsFinal) := by
  constructor
  · have hlegible : IsLegible (throttledMembers ["Message"]) (some "slow") :=
      ⟨by simp [throttledMembers], .text "slow"⟩
    obtain ⟨hreply, hretried, -⟩ := (ofReply_eq_of_isNamedBy 400
      read_throttledBody_once rfl throttling_isNamedBy).1 _ hlegible
    exact ⟨by rw [hreply], hretried (.inl (by decide))⟩
  · obtain ⟨hreply, -, hfinal⟩ := (ofReply_eq_of_isNamedBy 400
      read_throttledBody_twice rfl throttling_isNamedBy).2 not_isLegible_twice
    exact ⟨by rw [hreply], hfinal (by decide)⟩

/-- The code is lost even though the document is an object that has one type, which names it. -/
theorem code_lost_of_two_messages :
    ∃ members type, Json.read (throttledBody ["message", "Message"]) = (.obj members, true) ∧
      valuesOf "__type" members = [.str type] ∧ ErrorCode.throttling.IsNamedBy type ∧
      (ofReply 400 (throttledBody ["message", "Message"])).code ≠ .throttling ∧
      (ofReply 400 (throttledBody ["message", "Message"])).IsFinal := by
  have hreply := ofReply_of_not_isLegible 400 read_throttledBody_twice rfl
    not_isLegible_twice
  refine ⟨_, _, read_throttledBody_twice, rfl, throttling_isNamedBy, ?_, ?_⟩
  · rw [hreply]
    decide
  · rw [hreply]
    exact isFinal_of_not_isServiceFault rfl (by simp [ErrorCode.IsServiceFault])

end ServiceError

end TableClient
