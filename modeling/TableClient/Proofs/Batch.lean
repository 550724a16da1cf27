import TableClient.Batch
import TableClient.Proofs.KeyMap
import TableClient.Proofs.Send
import Mathlib.Data.List.Chain
import Mathlib.Data.Multiset.AddSub
import Mathlib.Algebra.BigOperators.Group.List.Basic
import Mathlib.Algebra.BigOperators.Fin
import Mathlib.Tactic.Ring

/-! What processing many units comes to.

The units of a call are cut into slices, and what a store leaves of a slice is asked for again.
`Batched.Portions` says what that means for an operation: the request for some units, the units
that a reply leaves, and what a reply returns. `Portions.Served` follows the requests for one
slice, round after round; what holds of them is shown by induction on the rounds. The slices are
served at once, and `Portions.Shared` puts together what holds of all of them. -/
namespace TableClient

/-! ### Slices -/

/-- The pieces of a list, by their number. -/
def slice {α : Type} (size : Nat) (units : List α) (i : Nat) : List α :=
  (units.drop (i * size)).take size

/-- A list is cut into as many pieces as it takes. -/
theorem length_chunks {α : Type} {size : Nat} (hsize : 0 < size) (units : List α) :
    (chunks size units).length = (units.length + size - 1) / size := by
  fun_induction chunks size units with
  | case1 =>
    rw [List.length_nil, List.length_nil, Nat.zero_add, Nat.div_eq_of_lt (by omega)]
  | case2 first rest ih =>
    rw [List.length_cons, ih, List.length_drop, List.length_cons]
    by_cases h : size - 1 ≤ rest.length
    · rw [show rest.length - (size - 1) + size - 1 = rest.length by omega,
        show rest.length + 1 + size - 1 = rest.length + size by omega, Nat.add_div_right _ hsize]
    · rw [Nat.div_eq_of_lt (by omega),
        show rest.length + 1 + size - 1 = rest.length + size by omega,
        Nat.add_div_right _ hsize, Nat.div_eq_of_lt (by omega)]

/-- The pieces of a list follow each other without gaps. -/
theorem getElem_chunks {α : Type} {size : Nat} (hsize : 0 < size) (units : List α) (i : Nat)
    (hi : i < (chunks size units).length) : (chunks size units)[i] = slice size units i := by
  fun_induction chunks size units generalizing i with
  | case1 => simp at hi
  | case2 first rest ih =>
    obtain ⟨size, rfl⟩ := Nat.exists_eq_add_of_lt hsize
    cases i with
    | zero => simp [slice]
    | succ i =>
      have hdrop : (i + 1) * (0 + size + 1) = size + i * (0 + size + 1) + 1 := by ring
      rw [List.getElem_cons_succ, ih, slice, slice, hdrop, List.drop_succ_cons, List.drop_drop]
      simp

/-- The pieces of a list, put together by their numbers, are the list. -/
theorem flatMap_slice {α : Type} {size : Nat} (hsize : 0 < size) (units : List α) :
    (List.finRange ((units.length + size - 1) / size)).flatMap
      (fun i : Fin _ => slice size units i) = units := by
  have hchunks : chunks size units =
      (List.finRange ((units.length + size - 1) / size)).map
        fun i : Fin _ => slice size units i := by
    refine List.ext_getElem (by simp [length_chunks hsize]) fun i hi _ => ?_
    simp [getElem_chunks hsize]
  rw [List.flatMap_def, ← hchunks, flatten_chunks]

/-- No piece is empty. -/
theorem slice_ne_nil {α : Type} {size : Nat} {units : List α} {i : Nat}
    (hi : i < (units.length + size - 1) / size) : slice size units i ≠ [] := by
  have hsize : 0 < size := (Nat.div_pos_iff.1 (Nat.zero_lt_of_lt hi)).1
  have hmul : (i + 1) * size ≤ units.length + size - 1 := Nat.mul_le_of_le_div _ _ _ hi
  have hlength : 0 < (slice size units i).length := by
    rw [Nat.succ_mul] at hmul
    rw [slice, List.length_take, List.length_drop]
    omega
  exact List.length_pos_iff.1 hlength

/-- All pieces but the last are of the full size. -/
theorem length_slice {α : Type} {size : Nat} {units : List α} {i : Nat}
    (hi : i + 1 < (units.length + size - 1) / size) : (slice size units i).length = size := by
  have hsize : 0 < size := (Nat.div_pos_iff.1 (Nat.zero_lt_of_lt hi)).1
  have hmul : (i + 1 + 1) * size ≤ units.length + size - 1 := Nat.mul_le_of_le_div _ _ _ hi
  rw [Nat.succ_mul, Nat.succ_mul] at hmul
  rw [slice, List.length_take, List.length_drop]
  omega

/-! ### Rounds -/

/-- A round sends a request. It fails, or nothing is left, or the next round asks for the rest. -/
theorem plays_processFrom_succ {s : Settings} {op : Operation} {batched : Batched op}
    {rounds round : Nat} {request : op.Request} {before : op.Reply} {es : List Exchange}
    {result : Option (Outcome op.Reply)} :
    (processFrom s batched (rounds + 1) round request before).run.Plays es result ↔
      ∃ sent : Sent s op, sent.request = request ∧
        ((∃ e, sent.outcome = .error e ∧ es = sent.exchanges ∧ result = some (.error e)) ∨
          ∃ reply later, sent.outcome = .ok reply ∧ es = sent.exchanges ++ later ∧
            match batched.remainder request reply with
            | none => later = [] ∧ result = some (.ok (batched.merge before reply))
            | some rest =>
              (processFrom s batched rounds (round + 1) rest (batched.merge before reply)).run.Plays
                later result) := by
  rw [processFrom, plays_send_bind]
  refine exists_congr fun sent => and_congr_right fun _ => or_congr_right (exists_congr fun reply =>
    exists_congr fun later => and_congr_right fun _ => and_congr_right fun _ => ?_)
  cases batched.remainder request reply with
  | none => exact Iff.rfl
  | some rest => exact Iff.rfl

/-! ### Operations on units -/

/-- How an operation deals with units of type `υ`, and what comes back for them, of type `ρ`. -/
structure Batched.Portions {op : Operation} (batched : Batched op) (υ ρ : Type) where
  /-- The request for some units. -/
  request : List υ → op.Request
  /-- The units that are asked for. -/
  asked : op.Request → List υ
  /-- A reply to a request leaves some of the units as they are. -/
  Splits : op.Request → op.Reply → Prop
  /-- The units that a reply leaves. -/
  left : op.Reply → List υ
  /-- What a reply returns for a table. -/
  returned : op.Reply → String → List ρ
  /-- A reply leaves nothing. -/
  Settled : op.Reply → Prop
  asked_request (units : List υ) : asked (request units) = units
  left_subperm {units : List υ} {reply : op.Reply} (h : Splits (request units) reply) :
    (left reply).Subperm units
  remainder_eq_none {units : List υ} {reply : op.Reply} (h : Splits (request units) reply)
    (hleft : left reply = []) : batched.remainder (request units) reply = none
  remainder_eq_some {units : List υ} {reply : op.Reply} (h : Splits (request units) reply)
    (hleft : left reply ≠ []) :
    batched.remainder (request units) reply = some (request (left reply))
  returned_nothing (table : String) : returned batched.nothing table = []
  returned_merge (total reply : op.Reply) (table : String) :
    returned (batched.merge total reply) table = returned total table ++ returned reply table
  settled_nothing : Settled batched.nothing
  settled_merge {total reply : op.Reply} (h : Settled total) : Settled (batched.merge total reply)

namespace Batched.Portions
variable {op : Operation} {batched : Batched op} {υ ρ : Type} (portions : batched.Portions υ ρ)
  {s : Settings}

/-- A reply leaves less than was asked for. -/
def Advances (request : op.Request) (reply : op.Reply) : Prop :=
  (portions.left reply).length < (portions.asked request).length

/-- The units that were asked for and not left. -/
def processed [DecidableEq υ] (sent : Sent s op) : Multiset υ :=
  match sent.outcome with
  | .ok reply => ↑(portions.asked sent.request) - ↑(portions.left reply)
  | .error _ => 0

/-- What was returned for a table. -/
def gain (table : String) (sent : Sent s op) : List ρ :=
  match sent.outcome with
  | .ok reply => portions.returned reply table
  | .error _ => []

/-- The requests for some units and for what is left of them: each asks for what the one before
left, up to one that leaves nothing or fails, or to where there are no rounds left. -/
inductive Served : (rounds : Nat) → (units : List υ) → (before : op.Reply) → List (Sent s op) →
    Option (Outcome op.Reply) → Prop
  | cut (units : List υ) (before : op.Reply) : Served 0 units before [] none
  | failed {rounds : Nat} {units : List υ} {before : op.Reply} {sent : Sent s op} {e : Failure}
      (hrequest : sent.request = portions.request units) (houtcome : sent.outcome = .error e) :
      Served (rounds + 1) units before [sent] (some (.error e))
  | ended {rounds : Nat} {units : List υ} {before : op.Reply} {sent : Sent s op} {reply : op.Reply}
      (hrequest : sent.request = portions.request units) (houtcome : sent.outcome = .ok reply)
      (hreply : portions.Splits (portions.request units) reply)
      (hleft : portions.left reply = []) :
      Served (rounds + 1) units before [sent] (some (.ok (batched.merge before reply)))
  | resent {rounds : Nat} {units : List υ} {before : op.Reply} {sent : Sent s op}
      {reply : op.Reply} {rest : List (Sent s op)} {result : Option (Outcome op.Reply)}
      (hrequest : sent.request = portions.request units) (houtcome : sent.outcome = .ok reply)
      (hreply : portions.Splits (portions.request units) reply)
      (hleft : portions.left reply ≠ [])
      (hrest : Served rounds (portions.left reply) (batched.merge before reply) rest result) :
      Served (rounds + 1) units before (sent :: rest) result

section Plays
variable {portions} {rounds : Nat} {units : List υ} {before : op.Reply} {es : List Exchange}
  {result : Option (Outcome op.Reply)}

/-- Where replies split what is asked for, a call for some units is served. -/
theorem exists_served {round : Nat} (hsplit : Answered op portions.Splits es)
    (h : (processFrom s batched rounds round (portions.request units) before).run.Plays es result) :
    ∃ sends : List (Sent s op), es = sends.flatMap Sent.exchanges ∧
      portions.Served rounds units before sends result := by
  induction rounds generalizing round units before es with
  | zero =>
    obtain ⟨rfl, rfl⟩ := h
    exact ⟨[], rfl, .cut units before⟩
  | succ rounds ih =>
    obtain ⟨sent, hrequest, ⟨e, houtcome, rfl, rfl⟩ | ⟨reply, later, houtcome, rfl, hlater⟩⟩ :=
      plays_processFrom_succ.1 h
    · exact ⟨[sent], by simp, .failed hrequest houtcome⟩
    · have hreply : portions.Splits (portions.request units) reply :=
        hrequest ▸ sent.replied hsplit (List.subset_append_left _ _) houtcome
      by_cases hleft : portions.left reply = []
      · rw [portions.remainder_eq_none hreply hleft] at hlater
        obtain ⟨rfl, rfl⟩ := hlater
        exact ⟨[sent], by simp, .ended hrequest houtcome hreply hleft⟩
      · rw [portions.remainder_eq_some hreply hleft] at hlater
        obtain ⟨sends, rfl, hsends⟩ :=
          ih (hsplit.mono (List.subset_append_right _ _)) hlater
        exact ⟨sent :: sends, by simp,
          .resent hrequest houtcome hreply hleft hsends⟩

/-- What is served is a call for some units. -/
theorem Served.plays {sends : List (Sent s op)}
    (h : portions.Served rounds units before sends result) (round : Nat) :
    (processFrom s batched rounds round (portions.request units) before).run.Plays
      (sends.flatMap Sent.exchanges) result := by
  induction h generalizing round with
  | cut => exact ⟨rfl, rfl⟩
  | @failed rounds units before sent e hrequest houtcome =>
    exact plays_processFrom_succ.2 ⟨sent, hrequest, .inl ⟨e, houtcome, by simp, rfl⟩⟩
  | @ended rounds units before sent reply hrequest houtcome hreply hleft =>
    refine plays_processFrom_succ.2 ⟨sent, hrequest, .inr ⟨reply, [], houtcome, by simp, ?_⟩⟩
    rw [portions.remainder_eq_none hreply hleft]
    exact ⟨rfl, rfl⟩
  | @resent rounds units before sent reply rest result hrequest houtcome hreply hleft hrest ih =>
    refine plays_processFrom_succ.2 ⟨sent, hrequest, .inr ⟨reply, _, houtcome, rfl, ?_⟩⟩
    rw [portions.remainder_eq_some hreply hleft]
    exact ih (round + 1)

end Plays

namespace Served
variable {portions} {rounds : Nat} {units : List υ} {before : op.Reply} {sends : List (Sent s op)}
  {result : Option (Outcome op.Reply)}

/-- The first request asks for all units. -/
theorem head (h : portions.Served rounds units before sends result) (hrounds : 0 < rounds) :
    ∃ sent ∈ sends.head?, sent.request = portions.request units := by
  cases h with
  | cut => omega
  | failed hrequest => exact ⟨_, rfl, hrequest⟩
  | ended hrequest => exact ⟨_, rfl, hrequest⟩
  | resent hrequest => exact ⟨_, rfl, hrequest⟩

/-- Every other request asks for what the reply before it left. -/
theorem isChain (h : portions.Served rounds units before sends result) :
    sends.IsChain fun earlier later => ∃ reply, earlier.outcome = .ok reply ∧
      later.request = portions.request (portions.left reply) := by
  induction h with
  | cut => exact .nil
  | failed => exact .singleton _
  | ended => exact .singleton _
  | @resent rounds units before sent reply rest result hrequest houtcome hreply hleft hrest ih =>
    refine ih.cons fun after hafter => ⟨reply, houtcome, ?_⟩
    cases hrest with
    | cut => cases hafter
    | failed hrequest => exact Option.some.inj hafter ▸ hrequest
    | ended hrequest => exact Option.some.inj hafter ▸ hrequest
    | resent hrequest => exact Option.some.inj hafter ▸ hrequest

/-- Where every reply makes progress there are no more requests than units, and as many rounds
are enough. -/
theorem brief (h : portions.Served rounds units before sends result) (hunits : units ≠ [])
    (hprogress : Answered op portions.Advances (sends.flatMap Sent.exchanges)) :
    sends.length ≤ units.length ∧ (units.length ≤ rounds → result ≠ none) := by
  induction h with
  | cut units =>
    have hpos : 0 < units.length := List.length_pos_iff.2 hunits
    exact ⟨Nat.zero_le _, fun hle => by omega⟩
  | failed => exact ⟨List.length_pos_iff.2 hunits, fun _ => by simp⟩
  | ended => exact ⟨List.length_pos_iff.2 hunits, fun _ => by simp⟩
  | @resent rounds units before sent reply rest result hrequest houtcome hreply hleft hrest ih =>
    rw [List.flatMap_cons] at hprogress
    have hless : (portions.left reply).length < units.length := by
      have hadvances := sent.replied hprogress (List.subset_append_left _ _) houtcome
      rwa [Advances, hrequest, portions.asked_request] at hadvances
    obtain ⟨hlength, hends⟩ := ih hleft (hprogress.mono (List.subset_append_right _ _))
    rw [List.length_cons]
    exact ⟨by omega, fun hle => hends (by omega)⟩

/-- Units that were served are all processed once. -/
theorem processed [DecidableEq υ] (h : portions.Served rounds units before sends result)
    {reply : op.Reply} (hresult : result = some (.ok reply)) :
    (sends.map portions.processed).sum = units := by
  induction h with
  | cut => cases hresult
  | failed => cases hresult
  | ended hrequest houtcome hreply hleft =>
    simp [Portions.processed, houtcome, hrequest, hleft, portions.asked_request]
  | resent hrequest houtcome hreply hleft hrest ih =>
    rw [List.map_cons, List.sum_cons, ih hresult]
    simp only [Portions.processed, houtcome, hrequest, portions.asked_request]
    exact tsub_add_cancel_of_le (Multiset.coe_le.2 (portions.left_subperm hreply))

/-- What is returned in the end is what was returned before and in every round. -/
theorem returned (h : portions.Served rounds units before sends result)
    {reply : op.Reply} (hresult : result = some (.ok reply)) (table : String) :
    portions.returned reply table =
      portions.returned before table ++ sends.flatMap (portions.gain table) := by
  induction h with
  | cut => cases hresult
  | failed => cases hresult
  | ended hrequest houtcome hreply hleft =>
    cases hresult
    simp [gain, houtcome, portions.returned_merge]
  | resent hrequest houtcome hreply hleft hrest ih =>
    rw [ih hresult, portions.returned_merge, List.flatMap_cons, List.append_assoc]
    simp [gain, houtcome]

/-- A failure in the end is that of a request. -/
theorem exists_failed (h : portions.Served rounds units before sends result)
    {e : Failure} (hresult : result = some (.error e)) :
    ∃ sent ∈ sends, sent.outcome = .error e := by
  induction h with
  | cut => cases hresult
  | failed hrequest houtcome =>
    cases hresult
    exact ⟨_, by simp, houtcome⟩
  | ended => cases hresult
  | resent hrequest houtcome hreply hleft hrest ih =>
    obtain ⟨sent, hsent, he⟩ := ih hresult
    exact ⟨sent, List.mem_cons_of_mem _ hsent, he⟩

end Served

/-! ### All slices -/

theorem returned_foldl (replies : List op.Reply) (total : op.Reply) (table : String) :
    portions.returned (replies.foldl batched.merge total) table =
      portions.returned total table ++
        replies.flatMap fun reply => portions.returned reply table := by
  induction replies generalizing total with
  | nil => simp
  | cons reply rest ih =>
    rw [List.foldl_cons, ih, portions.returned_merge, List.append_assoc, List.flatMap_cons]

theorem settled_foldl (replies : List op.Reply) {total : op.Reply} (h : portions.Settled total) :
    portions.Settled (replies.foldl batched.merge total) := by
  induction replies generalizing total with
  | nil => exact h
  | cons reply rest ih => exact ih (portions.settled_merge h)

/-- Whether the slices of some units are served by requests that take turns, and come to a result
together. -/
structure Shared [DecidableEq υ] (size rounds : Nat) (units : List υ) (es : List Exchange)
    (result : Option (Outcome op.Reply))
    (sends : Fin ((units.length + size - 1) / size) → List (Sent s op)) : Prop where
  /-- The requests for the slices take turns in some way. -/
  turns : Interleaves (fun i => (sends i).flatMap Sent.exchanges) es
  /-- All slices but the last are of the full size. -/
  full : ∀ i, i + 1 < (units.length + size - 1) / size → (slice size units i).length = size
  /-- The first request for a slice asks for all of it. -/
  head : 0 < rounds → ∀ i, ∃ sent ∈ (sends i).head?,
    sent.request = portions.request (slice size units i)
  /-- Every other request asks for what the reply before it left. -/
  rest : ∀ i, (sends i).IsChain fun earlier later => ∃ reply, earlier.outcome = .ok reply ∧
    later.request = portions.request (portions.left reply)
  /-- Where every reply makes progress, there are no more requests for a slice than units in it. -/
  brief : Answered op portions.Advances es → ∀ i, (sends i).length ≤ (slice size units i).length
  /-- Where every reply makes progress, as many rounds as units in a slice are enough. -/
  ends : Answered op portions.Advances es →
    (∀ i : Fin ((units.length + size - 1) / size), (slice size units i).length ≤ rounds) →
    result ≠ none
  /-- A success has processed every unit once. -/
  processed : ∀ reply, result = some (.ok reply) →
    (((List.finRange _).flatMap sends).map portions.processed).sum = units
  /-- A success returns all that was returned. -/
  returned : ∀ reply, result = some (.ok reply) → ∀ table,
    portions.returned reply table = ((List.finRange _).flatMap sends).flatMap (portions.gain table)
  /-- A success says that nothing is left. -/
  settled : ∀ reply, result = some (.ok reply) → portions.Settled reply
  /-- A failure is that of a request. -/
  failed : ∀ e, result = some (.error e) → ∃ i, ∃ sent ∈ sends i, sent.outcome = .error e

/-- Requests that are processed at once: each of them is, and the replies are merged. -/
theorem plays_processAll {rounds count : Nat} {requests : List op.Request}
    (hcount : requests.length = count) {es : List Exchange} {result : Option (Outcome op.Reply)} :
    (processAll s batched rounds requests).run.Plays es result ↔
      ∃ (tracks : Fin count → List Exchange) (ends : Fin count → Option (Outcome op.Reply)),
        Interleaves tracks es ∧
        (∀ i : Fin count, (process s batched rounds requests[i]).run.Plays (tracks i) (ends i)) ∧
        result = (Call.together ends).map
          (Except.map fun replies => replies.foldl batched.merge batched.nothing) := by
  have hcalls : (requests.map (process s batched rounds)).length = count := by
    rw [List.length_map, hcount]
  rw [processAll, Call.plays_map]
  simp only [Call.plays_all hcalls, Fin.getElem_fin, List.getElem_map]
  constructor
  · rintro ⟨_, ⟨tracks, ends, hturns, hends, rfl⟩, rfl⟩
    exact ⟨tracks, ends, hturns, hends, rfl⟩
  · rintro ⟨tracks, ends, hturns, hends, rfl⟩
    exact ⟨_, ⟨tracks, ends, hturns, hends, rfl⟩, rfl⟩

variable {portions} in
/-- A single slice that is served is all there is to process. -/
theorem Served.plays_processAll {rounds : Nat} {units : List υ} {sends : List (Sent s op)}
    {reply : op.Reply}
    (h : portions.Served rounds units batched.nothing sends (some (.ok reply))) :
    (processAll s batched rounds [portions.request units]).run.Plays
      (sends.flatMap Sent.exchanges) (some (.ok (batched.merge batched.nothing reply))) := by
  have hcount : [portions.request units].length = 1 := rfl
  refine (Portions.plays_processAll hcount).2 ⟨fun _ => sends.flatMap Sent.exchanges,
    fun _ => some (.ok reply), ?_, fun i => ?_, rfl⟩
  · have hturns := Interleaves.of_flatMap fun _ : Fin 1 => sends.flatMap Sent.exchanges
    rwa [show List.finRange 1 = [0] from rfl, List.flatMap_singleton] at hturns
  · rw [Subsingleton.elim i 0]
    exact h.plays 1

/-- Units that are served in two rounds: the first reply leaves some of them, the second none. -/
theorem plays_twice (s : Settings) {units : List υ} {first last : op.Reply}
    (hfirst : portions.Splits (portions.request units) first) (hleft : portions.left first ≠ [])
    (hlast : portions.Splits (portions.request (portions.left first)) last)
    (hnone : portions.left last = []) :
    (processAll s batched 2 [portions.request units]).run.Plays
      [⟨op, portions.request units, .reply first⟩,
        ⟨op, portions.request (portions.left first), .reply last⟩]
      (some (.ok (batched.merge batched.nothing
        (batched.merge (batched.merge batched.nothing first) last)))) := by
  have hserved : portions.Served 2 units batched.nothing
      [.answered s op (portions.request units) first,
        .answered s op (portions.request (portions.left first)) last] _ :=
    .resent rfl rfl hfirst hleft (.ended rfl rfl hlast hnone)
  exact hserved.plays_processAll

variable {portions} in
theorem advances_request {units : List υ} {reply : op.Reply}
    (h : (portions.left reply).length < units.length) :
    portions.Advances (portions.request units) reply := by
  rw [Advances, portions.asked_request]
  exact h

/-- Sums over several lists, one after the other. -/
theorem sum_flatMap {κ : Type} (l : List κ) {sends : κ → List (Sent s op)}
    {f : Sent s op → Multiset υ} {units : κ → List υ} (h : ∀ i, ((sends i).map f).sum = units i) :
    ((l.flatMap sends).map f).sum = l.flatMap units := by
  induction l with
  | nil => rfl
  | cons i rest ih =>
    rw [List.flatMap_cons, List.map_append, List.sum_append, ih, h, List.flatMap_cons,
      Multiset.coe_add]

variable {portions} in
/-- Where replies split what is asked for, a call for many units is served slice by slice. -/
theorem exists_shared [DecidableEq υ] {size rounds : Nat} (hsize : 0 < size) {units : List υ}
    {es : List Exchange} {result : Option (Outcome op.Reply)}
    (hsplit : Answered op portions.Splits es)
    (h : (processAll s batched rounds ((chunks size units).map portions.request)).run.Plays
      es result) :
    ∃ sends : Fin _ → List (Sent s op), portions.Shared size rounds units es result sends := by
  have hcount : ((chunks size units).map portions.request).length =
      (units.length + size - 1) / size := by
    rw [List.length_map, length_chunks hsize]
  obtain ⟨tracks, ends, hturns, hends, rfl⟩ := (plays_processAll hcount).1 h
  have hserved (i : Fin ((units.length + size - 1) / size)) : ∃ sends : List (Sent s op),
      tracks i = sends.flatMap Sent.exchanges ∧
      portions.Served rounds (slice size units i) batched.nothing sends (ends i) := by
    have hplays := hends i
    simp only [Fin.getElem_fin, List.getElem_map, getElem_chunks hsize] at hplays
    exact exists_served (hsplit.track hturns i) hplays
  choose sends htracks hserved using hserved
  have hbrief (hprogress : Answered op portions.Advances es)
      (i : Fin ((units.length + size - 1) / size)) :=
    (hserved i).brief (slice_ne_nil i.isLt) (htracks i ▸ hprogress.track hturns i)
  refine ⟨sends, ?_, fun i hi => length_slice hi, fun hrounds i => (hserved i).head hrounds,
    fun i => (hserved i).isChain, fun hprogress i => (hbrief hprogress i).1, ?_, ?_, ?_, ?_, ?_⟩
  · rwa [← funext htracks]
  · -- a slice that is cut has more units than there are rounds
    intro hprogress hrounds hcut
    obtain ⟨i, hi⟩ := Call.together_eq_none_iff.1 (Option.map_eq_none_iff.1 hcut)
    exact (hbrief hprogress i).2 (hrounds i) hi
  · intro reply h
    obtain ⟨replies, hreplies, -⟩ := Call.map_together_eq_ok_iff.1 h
    rw [sum_flatMap (List.finRange _) fun i => (hserved i).processed (hreplies i),
      flatMap_slice hsize]
  · intro reply h table
    obtain ⟨replies, hreplies, rfl⟩ := Call.map_together_eq_ok_iff.1 h
    have hgain i := (hserved i).returned (hreplies i) table
    simp only [portions.returned_nothing, List.nil_append] at hgain
    rw [returned_foldl, portions.returned_nothing, List.nil_append, List.ofFn_eq_map,
      List.flatMap_map, List.flatMap_assoc]
    exact List.flatMap_congr fun i _ => hgain i
  · intro reply h
    obtain ⟨replies, hreplies, rfl⟩ := Call.map_together_eq_ok_iff.1 h
    exact portions.settled_foldl _ portions.settled_nothing
  · intro e h
    obtain ⟨outcome, houtcome, he⟩ := Option.map_eq_some_iff.1 h
    cases outcome with
    | ok all => cases he
    | error e' =>
      cases he
      obtain ⟨i, hi⟩ := Call.exists_of_together_eq_error houtcome
      exact ⟨i, (hserved i).exists_failed hi⟩

end Batched.Portions

/-! ### Reads and changes -/

/-- What is left of some tables: each entry stands in a relation to what was asked for under its
name. -/
def Remains {α : Type} (R : α → α → Prop) (asked left : KeyMap α) : Prop :=
  ∀ table entry, (table, entry) ∈ left.toList →
    ∃ whole, (table, whole) ∈ asked.toList ∧ R entry whole

namespace Remains
variable {α : Type} {R : α → α → Prop} {asked left : KeyMap α} {table : String} {a entry : α}

theorem empty : Remains R asked ∅ := by
  intro table entry hmem
  rw [KeyMap.toList_eq_nil_iff.2 rfl] at hmem
  cases hmem

theorem single (h : R entry a) : Remains R (.ofList [(table, a)]) (.ofList [(table, entry)]) := by
  intro table' entry' hmem
  rw [KeyMap.toList_single, List.mem_singleton] at hmem
  cases hmem
  refine ⟨a, ?_, h⟩
  rw [KeyMap.toList_single]
  exact List.mem_singleton_self _

/-- What is left of one table is nothing or one entry under its name. -/
theorem eq_empty_or_single (h : Remains R (.ofList [(table, a)]) left) :
    left = ∅ ∨ ∃ entry, R entry a ∧ left = .ofList [(table, entry)] := by
  have hasked {t : String} {entry : α} (hmem : (t, entry) ∈ left.toList) :
      t = table ∧ R entry a := by
    obtain ⟨whole, hwhole, hR⟩ := h t entry hmem
    rw [KeyMap.toList_single, List.mem_singleton] at hwhole
    cases hwhole
    exact ⟨rfl, hR⟩
  rcases KeyMap.eq_empty_or_single fun entry hmem => (hasked hmem).1 with hleft | ⟨entry, hleft⟩
  · exact .inl hleft
  · refine .inr ⟨entry, (hasked (t := table) ?_).2, hleft⟩
    rw [hleft, KeyMap.toList_single]
    exact List.mem_singleton_self _

end Remains

/-- A reply to a read leaves, of the tables asked for, some of the keys, with the settings of the
read. -/
def BatchGet.Splits (request : BatchGet.Request) (reply : BatchGet.Reply) : Prop :=
  Remains (fun entry asked => entry = { asked with keys := entry.keys } ∧
    entry.keys.Subperm asked.keys) request.tables reply.unprocessed

/-- A reply to a change leaves, of the tables asked for, some of the entries. -/
def BatchWrite.Splits (request : BatchWrite.Request) (reply : BatchWrite.Reply) : Prop :=
  Remains List.Subperm request.tables reply.unprocessed

namespace BatchRead

/-- The request for some keys. -/
def request (b : BatchRead) (keys : List Key) : BatchGet.Request :=
  { tables := .ofList [(b.table, { b.template with keys })], reportCapacity := b.reportCapacity }

/-- A reply leaves nothing, or some keys of the table with the settings of the read. -/
theorem left_of_splits {b : BatchRead} {keys : List Key} {reply : BatchGet.Reply}
    (h : BatchGet.Splits (b.request keys) reply) :
    reply.unprocessed = ∅ ∨ ∃ left : List Key, left.Subperm keys ∧
      reply.unprocessed = .ofList [(b.table, { b.template with keys := left })] := by
  rcases Remains.eq_empty_or_single h with hleft | ⟨entry, ⟨hentry, hsub⟩, hleft⟩
  · exact .inl hleft
  · exact .inr ⟨entry.keys, hsub, by rw [hleft, hentry]⟩

/-- Keys are read, and items come back. -/
def portions (b : BatchRead) : Batched.get.Portions Key Item where
  request := b.request
  asked (request : BatchGet.Request) := ((request.tables.get? b.table).map TableKeys.keys).getD []
  Splits := BatchGet.Splits
  left (reply : BatchGet.Reply) := ((reply.unprocessed.get? b.table).map TableKeys.keys).getD []
  returned (reply : BatchGet.Reply) table := (reply.items.get? table).getD []
  Settled (reply : BatchGet.Reply) := reply.unprocessed = ∅
  asked_request keys := by simp [request]
  left_subperm {keys reply} h := by
    rcases left_of_splits h with hleft | ⟨left, hsub, hleft⟩
    · simp [hleft]
    · simpa [hleft] using hsub
  remainder_eq_none {keys reply} h hnone := by
    rcases left_of_splits h with hleft | ⟨left, hsub, hleft⟩
    · simp [Batched.get, hleft]
    · obtain rfl : left = [] := by simpa [hleft] using hnone
      simp [Batched.get, hleft, KeyMap.filter_single]
  remainder_eq_some {keys reply} h hsome := by
    rcases left_of_splits h with hleft | ⟨left, hsub, hleft⟩
    · exact absurd (by simp [hleft]) hsome
    · have hne : left ≠ [] := by simpa [hleft] using hsome
      simp [Batched.get, hleft, KeyMap.filter_single, hne, request]
  returned_nothing table := by simp [Batched.get]
  returned_merge total reply table := KeyMap.getD_get?_extend total.items reply.items table
  settled_nothing := rfl
  settled_merge h := h

end BatchRead

namespace BatchChange

/-- The request for some entries. -/
def request (b : BatchChange) (entries : List WriteEntry) : BatchWrite.Request :=
  { tables := .ofList [(b.table, entries)]
    reportCapacity := b.reportCapacity
    reportMetrics := b.reportMetrics }

/-- A reply leaves nothing, or some entries of the table. -/
theorem left_of_splits {b : BatchChange} {entries : List WriteEntry} {reply : BatchWrite.Reply}
    (h : BatchWrite.Splits (b.request entries) reply) :
    reply.unprocessed = ∅ ∨ ∃ left : List WriteEntry, left.Subperm entries ∧
      reply.unprocessed = .ofList [(b.table, left)] :=
  Remains.eq_empty_or_single h

/-- Entries are written, and metrics of collections come back. -/
def portions (b : BatchChange) : Batched.write.Portions WriteEntry CollectionMetrics where
  request := b.request
  asked (request : BatchWrite.Request) := (request.tables.get? b.table).getD []
  Splits := BatchWrite.Splits
  left (reply : BatchWrite.Reply) := (reply.unprocessed.get? b.table).getD []
  returned (reply : BatchWrite.Reply) table := (reply.metrics.get? table).getD []
  Settled (reply : BatchWrite.Reply) := reply.unprocessed = ∅
  asked_request entries := by simp [request]
  left_subperm {entries reply} h := by
    rcases left_of_splits h with hleft | ⟨left, hsub, hleft⟩
    · simp [hleft]
    · simpa [hleft] using hsub
  remainder_eq_none {entries reply} h hnone := by
    rcases left_of_splits h with hleft | ⟨left, hsub, hleft⟩
    · simp [Batched.write, hleft]
    · obtain rfl : left = [] := by simpa [hleft] using hnone
      simp [Batched.write, hleft, KeyMap.filter_single]
  remainder_eq_some {entries reply} h hsome := by
    rcases left_of_splits h with hleft | ⟨left, hsub, hleft⟩
    · exact absurd (by simp [hleft]) hsome
    · have hne : left ≠ [] := by simpa [hleft] using hsome
      simp [Batched.write, hleft, KeyMap.filter_single, hne, request]
  returned_nothing table := by simp [Batched.write]
  returned_merge total reply table := KeyMap.getD_get?_extend total.metrics reply.metrics table
  settled_nothing := rfl
  settled_merge h := h

end BatchChange

/-- **Nothing is lost and nothing is done twice.** A read of valid keys is cut into slices of a
hundred, a change into slices of twenty-five. Against any store that splits what it is asked for,
and however the requests for the slices take turns, every slice is asked for and then what is left
of it, until nothing is; a success has processed every unit once, returns all that was returned and
leaves nothing, and it takes no more rounds than a slice has units if every reply makes progress. -/
theorem batches_shared :
    (∀ (b : BatchRead) (s : Settings) (rounds : Nat) (es : List Exchange)
        (result : Option (Outcome BatchGet.Reply)),
      Key.validateAll b.keys = .ok () → Answered .batchGet b.portions.Splits es →
      (b.run s rounds).run.Plays es result →
      ∃ sends : Fin ((b.keys.length + 100 - 1) / 100) → List (Sent s .batchGet),
        b.portions.Shared 100 rounds b.keys es result sends) ∧
    (∀ (b : BatchChange) (s : Settings) (rounds : Nat) (es : List Exchange)
        (result : Option (Outcome BatchWrite.Reply)),
      b.entries ≠ [] → Answered .batchWrite b.portions.Splits es →
      (b.run s rounds).run.Plays es result →
      ∃ sends : Fin ((b.entries.length + 25 - 1) / 25) → List (Sent s .batchWrite),
        b.portions.Shared 25 rounds b.entries es result sends) := by
  refine ⟨?_, ?_⟩
  · intro b s rounds es result hvalid hsplit h
    rw [BatchRead.run, hvalid] at h
    exact Batched.Portions.exists_shared (by decide) hsplit h
  · intro b s rounds es result hne hsplit h
    rw [BatchChange.run, List.isEmpty_eq_false_iff.2 hne] at h
    exact Batched.Portions.exists_shared (by decide) hsplit h

/-- A read of two keys and a change of three entries, of which the store leaves one or two at
first. -/
theorem batches_shared_left :
    let key (id : String) : Key := .ofList [("id", .text id)]
    let read : BatchRead := ⟨"t", [key "a", key "b"], { keys := [] }, none⟩
    let half : BatchGet.Reply :=
      { items := .ofList [("t", [key "a"])], unprocessed := .ofList [("t", { keys := [key "b"] })] }
    let whole : BatchGet.Reply := { items := .ofList [("t", [key "b"])] }
    let found : BatchGet.Reply := { items := .ofList [("t", [key "a", key "b"])] }
    let reads : List Exchange :=
      [⟨.batchGet, read.request [key "a", key "b"], .reply half⟩,
        ⟨.batchGet, read.request [key "b"], .reply whole⟩]
    let entry (id : String) : WriteEntry := .ofKey (key id)
    let change : BatchChange := ⟨"t", [entry "a", entry "b", entry "c"], none, some .size⟩
    let third : BatchWrite.Reply :=
      { metrics := .ofList [("t", [{ key := key "b" }])]
        unprocessed := .ofList [("t", [entry "c", entry "a"])] }
    let rest : BatchWrite.Reply :=
      { metrics := .ofList [("t", [{ key := key "c" }, { key := key "a" }])] }
    let told : BatchWrite.Reply :=
      { metrics := .ofList [("t", [{ key := key "b" }, { key := key "c" }, { key := key "a" }])] }
    let writes : List Exchange :=
      [⟨.batchWrite, change.request [entry "a", entry "b", entry "c"], .reply third⟩,
        ⟨.batchWrite, change.request [entry "c", entry "a"], .reply rest⟩]
    (Key.validateAll read.keys = .ok () ∧ Answered .batchGet read.portions.Splits reads ∧
      Answered .batchGet read.portions.Advances reads ∧
      (read.run {} 2).run.Plays reads (some (.ok found)) ∧
      ∃ sends : Fin ((read.keys.length + 100 - 1) / 100) → List (Sent {} .batchGet),
        read.portions.Shared 100 2 read.keys reads (some (.ok found)) sends) ∧
    (change.entries ≠ [] ∧ Answered .batchWrite change.portions.Splits writes ∧
      Answered .batchWrite change.portions.Advances writes ∧
      (change.run {} 2).run.Plays writes (some (.ok told)) ∧
      ∃ sends : Fin ((change.entries.length + 25 - 1) / 25) → List (Sent {} .batchWrite),
        change.portions.Shared 25 2 change.entries writes (some (.ok told)) sends) := by
  intro key read half whole found reads entry change third rest told writes
  constructor
  · have hvalid : Key.validateAll read.keys = .ok () := rfl
    have hhalf : BatchGet.Splits (read.request read.keys) half :=
      Remains.single ⟨rfl, List.Sublist.subperm (by simp [read])⟩
    have hleft : read.portions.left half = [key "b"] := by simp [BatchRead.portions, read, half]
    have hnone : read.portions.left whole = [] := by simp [BatchRead.portions, whole]
    have hsplit : Answered .batchGet read.portions.Splits reads :=
      .cons hhalf (.cons Remains.empty .nil)
    have hprogress : Answered .batchGet read.portions.Advances reads :=
      .cons (Batched.Portions.advances_request (by simp [hleft]))
        (.cons (Batched.Portions.advances_request (by simp [hnone])) .nil)
    have hrequests : read.requests = [read.request read.keys] := by
      simp [BatchRead.requests, BatchRead.request, BatchRead.chunkSize, chunks, read]
    have hmerged : Batched.get.merge Batched.get.nothing
        (Batched.get.merge (Batched.get.merge Batched.get.nothing half) whole) = found := by
      simp [Batched.get, half, whole, found, KeyMap.empty_extend_single,
        KeyMap.single_extend_single, ConsumedCapacity.addTables]
    have hplays : (read.run {} 2).run.Plays reads (some (.ok found)) := by
      rw [BatchRead.run, hvalid]
      show (processAll {} Batched.get 2 read.requests).run.Plays reads _
      rw [hrequests]
      have htwice := read.portions.plays_twice {} hhalf (by simp [hleft])
        (hleft ▸ Remains.empty) hnone
      rwa [hleft, hmerged] at htwice
    exact ⟨hvalid, hsplit, hprogress, hplays,
      batches_shared.1 read {} 2 reads _ hvalid hsplit hplays⟩
  · have hne : change.entries ≠ [] := by simp [change]
    have hthird : BatchWrite.Splits (change.request change.entries) third :=
      Remains.single (List.subperm_of_subset (by decide +kernel) (by simp [change]))
    have hleft : change.portions.left third = [entry "c", entry "a"] := by
      simp [BatchChange.portions, change, third]
    have hnone : change.portions.left rest = [] := by simp [BatchChange.portions, rest]
    have hsplit : Answered .batchWrite change.portions.Splits writes :=
      .cons hthird (.cons Remains.empty .nil)
    have hprogress : Answered .batchWrite change.portions.Advances writes :=
      .cons (Batched.Portions.advances_request (by simp [hleft]))
        (.cons (Batched.Portions.advances_request (by simp [hnone])) .nil)
    have hrequests : change.requests = [change.request change.entries] := by
      simp [BatchChange.requests, BatchChange.request, BatchChange.chunkSize, chunks, change]
    have hmerged : Batched.write.merge Batched.write.nothing
        (Batched.write.merge (Batched.write.merge Batched.write.nothing third) rest) = told := by
      simp [Batched.write, third, rest, told, KeyMap.empty_extend_single,
        KeyMap.single_extend_single, ConsumedCapacity.addTables]
    have hplays : (change.run {} 2).run.Plays writes (some (.ok told)) := by
      show (processAll {} Batched.write 2 change.requests).run.Plays writes _
      rw [hrequests]
      have htwice := change.portions.plays_twice {} hthird (by simp [hleft])
        (hleft ▸ Remains.empty) hnone
      rwa [hleft, hmerged] at htwice
    exact ⟨hne, hsplit, hprogress, hplays,
      batches_shared.2 change {} 2 writes _ hne hsplit hplays⟩

end TableClient
