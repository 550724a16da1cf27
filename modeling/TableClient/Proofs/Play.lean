import TableClient.Proofs.Except
import TableClient.Store
import Mathlib.Data.List.OfFn
import Mathlib.Data.List.FinRange

/-! What can come of a dialogue.

A play of a dialogue lists the requests that are sent, each with what came of it, in the
order in which they are sent, up to the end of the dialogue or to where it is cut. Nothing
is said of who answers: every arrival is possible for every request. Dialogues that go on at
once take turns in any way. What holds of every play therefore holds against every store and
for every order in which dialogues that run at once get their turn. `Dialogue.exists_plays_run`
is the link to `Dialogue.run`: whatever a store and a clock make of a dialogue is a play of it. -/
namespace TableClient

/-- A request and what came of it. -/
structure Exchange where
  op : Operation
  request : op.Request
  arrival : Arrival op

/-! ### Taking turns -/

/-- A list made of the members of all tracks, those of each track in their order. -/
def Interleaves {ε : Type} {count : Nat} (tracks : Fin count → List ε) (es : List ε) : Prop :=
  ∃ labelled : List (Fin count × ε), labelled.map Prod.snd = es ∧
    ∀ i, (labelled.filter fun entry => entry.1 = i).map Prod.snd = tracks i

namespace Interleaves
variable {ε : Type} {count : Nat} {tracks : Fin count → List ε} {es : List ε}

/-- What is on a track is in the whole. -/
theorem mem_of_track (h : Interleaves tracks es) {i : Fin count} {e : ε} (he : e ∈ tracks i) :
    e ∈ es := by
  obtain ⟨labelled, rfl, htracks⟩ := h
  rw [← htracks i] at he
  obtain ⟨entry, hentry, rfl⟩ := List.mem_map.1 he
  exact List.mem_map_of_mem (List.mem_of_mem_filter hentry)

/-- What is in the whole is on a track. -/
theorem exists_mem_track (h : Interleaves tracks es) {e : ε} (he : e ∈ es) :
    ∃ i, e ∈ tracks i := by
  obtain ⟨labelled, rfl, htracks⟩ := h
  obtain ⟨⟨i, e⟩, hentry, rfl⟩ := List.mem_map.1 he
  refine ⟨i, ?_⟩
  rw [← htracks i]
  exact List.mem_map.2 ⟨(i, e), List.mem_filter.2 ⟨hentry, by simp⟩, rfl⟩

/-- A track is no longer than the whole. -/
theorem length_le (h : Interleaves tracks es) (i : Fin count) :
    (tracks i).length ≤ es.length := by
  obtain ⟨labelled, rfl, htracks⟩ := h
  rw [← htracks i, List.length_map, List.length_map]
  exact List.length_filter_le _ labelled

/-- Of a list without repetitions, what is at one place. -/
theorem flatMap_only {κ : Type} [DecidableEq κ] {l : List κ} (hl : l.Nodup) {i : κ} (hi : i ∈ l)
    (xs : List ε) : (l.flatMap fun j => if j = i then xs else []) = xs := by
  induction l with
  | nil => simp at hi
  | cons j rest ih =>
    obtain ⟨hj, hrest⟩ := List.nodup_cons.1 hl
    by_cases hji : j = i
    · subst hji
      have hnone : (rest.flatMap fun k => if k = j then xs else []) = [] := by
        refine List.flatMap_eq_nil_iff.2 fun k hk => if_neg ?_
        rintro rfl
        exact hj hk
      simp [hnone]
    · have hi : i ∈ rest := (List.mem_cons.1 hi).resolve_left (Ne.symm hji)
      simp [hji, ih hrest hi]

/-- The tracks one after the other are one way to take turns. -/
theorem of_flatMap (tracks : Fin count → List ε) :
    Interleaves tracks ((List.finRange count).flatMap tracks) := by
  refine ⟨(List.finRange count).flatMap fun i => (tracks i).map (Prod.mk i), ?_, fun i => ?_⟩
  · simp [List.map_flatMap, Function.comp_def]
  · -- only the part of track `i` carries the label `i`
    have hpart : ∀ j, ((tracks j).map (Prod.mk j)).filter (fun entry => decide (entry.1 = i)) =
        if j = i then (tracks i).map (Prod.mk i) else [] := by
      intro j
      by_cases hji : j = i
      · subst hji
        simp
      · simp [hji]
    simp only [List.filter_flatMap, hpart]
    rw [flatMap_only (List.nodup_finRange count) (List.mem_finRange i), List.map_map]
    exact List.map_id _

end Interleaves

/-! ### Replies -/

/-- Whether every reply to an operation is to its request as a relation says. -/
def Answered (op : Operation) (R : op.Request → op.Reply → Prop) (es : List Exchange) : Prop :=
  ∀ request reply, ⟨op, request, .reply reply⟩ ∈ es → R request reply

namespace Answered
variable {op : Operation} {R : op.Request → op.Reply → Prop} {es : List Exchange}

theorem mono {part : List Exchange} (h : Answered op R es) (hpart : part ⊆ es) :
    Answered op R part :=
  fun request reply hmem => h request reply (hpart hmem)

theorem track {count : Nat} {tracks : Fin count → List Exchange} (h : Answered op R es)
    (hturns : Interleaves tracks es) (i : Fin count) : Answered op R (tracks i) :=
  h.mono fun _ => hturns.mem_of_track

theorem nil : Answered op R [] := by
  intro request reply hmem
  cases hmem

theorem cons {request : op.Request} {reply : op.Reply} (hreply : R request reply)
    (hrest : Answered op R es) : Answered op R (⟨op, request, .reply reply⟩ :: es) := by
  intro request' reply' hmem
  rcases List.mem_cons.1 hmem with h | h
  · cases h
    exact hreply
  · exact hrest request' reply' h

end Answered

namespace Dialogue
variable {α β : Type}

/-! ### Plays -/

/-- Whether a dialogue can send these requests, with these arrivals, and end so: with a result,
or with nothing where it is cut. -/
def Plays : {α : Type} → Dialogue α → List Exchange → Option α → Prop
  | _, .done a, es, result => es = [] ∧ result = some a
  | _, .cut, es, result => es = [] ∧ result = none
  | _, .pause _ next, es, result => next.Plays es result
  | _, .ask op request _ next, es, result =>
    ∃ arrival rest, es = ⟨op, request, arrival⟩ :: rest ∧ (next arrival).Plays rest result
  | _, .abreast count branches next, es, result =>
    ∃ (tracks : Fin count → List Exchange) (turns : List Exchange), Interleaves tracks turns ∧
      ((∃ values after, es = turns ++ after ∧
          (∀ i, (branches i).Plays (tracks i) (some (values i))) ∧
          (next (List.ofFn values)).Plays after result) ∨
        (es = turns ∧ result = none ∧ ∃ ends : Fin count → Option _,
          (∀ i, (branches i).Plays (tracks i) (ends i)) ∧ ∃ i, ends i = none))

@[simp] theorem plays_done {a : α} {es : List Exchange} {result : Option α} :
    (done a).Plays es result ↔ es = [] ∧ result = some a := Iff.rfl

@[simp] theorem plays_cut {es : List Exchange} {result : Option α} :
    (cut : Dialogue α).Plays es result ↔ es = [] ∧ result = none := Iff.rfl

@[simp] theorem plays_pause {length : Duration} {next : Dialogue α} {es : List Exchange}
    {result : Option α} : (pause length next).Plays es result ↔ next.Plays es result := Iff.rfl

theorem plays_ask {op : Operation} {request : op.Request} {deadline : Duration}
    {next : Arrival op → Dialogue α} {es : List Exchange} {result : Option α} :
    (ask op request deadline next).Plays es result ↔
      ∃ arrival rest, es = ⟨op, request, arrival⟩ :: rest ∧ (next arrival).Plays rest result :=
  Iff.rfl

/-- After a request and what arrived for it come the plays of what is next. -/
theorem plays_ask_cons {op : Operation} {request : op.Request} {deadline : Duration}
    {next : Arrival op → Dialogue α} {arrival : Arrival op} {es : List Exchange}
    {result : Option α} :
    (ask op request deadline next).Plays (⟨op, request, arrival⟩ :: es) result ↔
      (next arrival).Plays es result := by
  constructor
  · rintro ⟨_, _, ⟨⟩, h⟩
    exact h
  · exact fun h => ⟨arrival, es, rfl, h⟩

theorem plays_abreast {count : Nat} {branches : Fin count → Dialogue β}
    {next : List β → Dialogue α} {es : List Exchange} {result : Option α} :
    (abreast count branches next).Plays es result ↔
      ∃ (tracks : Fin count → List Exchange) (turns : List Exchange), Interleaves tracks turns ∧
        ((∃ values after, es = turns ++ after ∧
            (∀ i, (branches i).Plays (tracks i) (some (values i))) ∧
            (next (List.ofFn values)).Plays after result) ∨
          (es = turns ∧ result = none ∧ ∃ ends : Fin count → Option β,
            (∀ i, (branches i).Plays (tracks i) (ends i)) ∧ ∃ i, ends i = none)) := Iff.rfl

/-- A play of a dialogue and what comes after it: a play of the dialogue that is cut, or one that
ends and a play of what comes then. -/
theorem plays_bind {d : Dialogue α} {f : α → Dialogue β} {es : List Exchange}
    {result : Option β} :
    (d.bind f).Plays es result ↔
      (d.Plays es none ∧ result = none) ∨
      ∃ a before after, es = before ++ after ∧ d.Plays before (some a) ∧
        (f a).Plays after result := by
  induction d generalizing es with
  | done a => simp [bind]
  | cut => simp [bind]
  | pause length next ih => simpa [bind] using ih
  | ask op request deadline next ih =>
    simp only [bind, plays_ask, ih]
    constructor
    · rintro ⟨arrival, rest, rfl, ⟨h, rfl⟩ | ⟨a, before, after, rfl, h, hf⟩⟩
      · exact .inl ⟨⟨arrival, rest, rfl, h⟩, rfl⟩
      · exact .inr ⟨a, _ :: before, after, rfl, ⟨arrival, before, rfl, h⟩, hf⟩
    · rintro (⟨⟨arrival, rest, rfl, h⟩, rfl⟩ | ⟨a, _, after, rfl, ⟨arrival, before, rfl, h⟩, hf⟩)
      · exact ⟨arrival, rest, rfl, .inl ⟨h, rfl⟩⟩
      · exact ⟨arrival, before ++ after, rfl, .inr ⟨a, before, after, rfl, h, hf⟩⟩
  | abreast count branches next _ ih =>
    simp only [bind, plays_abreast]
    constructor
    · rintro ⟨tracks, turns, hturns, ⟨values, later, rfl, hends, hlater⟩ | ⟨rfl, rfl, hcut⟩⟩
      · rcases (ih _).1 hlater with ⟨h, rfl⟩ | ⟨a, before, after, rfl, h, hf⟩
        · exact .inl ⟨⟨tracks, turns, hturns, .inl ⟨values, later, rfl, hends, h⟩⟩, rfl⟩
        · refine .inr ⟨a, turns ++ before, after, (List.append_assoc ..).symm, ?_, hf⟩
          exact ⟨tracks, turns, hturns, .inl ⟨values, before, rfl, hends, h⟩⟩
      · exact .inl ⟨⟨tracks, es, hturns, .inr ⟨rfl, trivial, hcut⟩⟩, rfl⟩
    · rintro (⟨⟨tracks, turns, hturns, ⟨values, later, rfl, hends, h⟩ | ⟨rfl, -, hcut⟩⟩, rfl⟩ |
        ⟨a, _, after, rfl, ⟨tracks, turns, hturns, ⟨values, before, rfl, hends, h⟩ | hcut⟩, hf⟩)
      · refine ⟨tracks, turns, hturns, .inl ⟨values, later, rfl, hends, ?_⟩⟩
        exact (ih _).2 (.inl ⟨h, rfl⟩)
      · exact ⟨tracks, es, hturns, .inr ⟨rfl, rfl, hcut⟩⟩
      · refine ⟨tracks, turns, hturns, .inl ⟨values, before ++ after, ?_, hends, ?_⟩⟩
        · exact List.append_assoc ..
        · exact (ih _).2 (.inr ⟨a, before, after, rfl, h, hf⟩)
      · exact absurd hcut.2.1 (by simp)

/-- Several dialogues started at once: what each of them ends with, or a cut if one is cut. -/
theorem plays_all {dialogues : List (Dialogue α)} {count : Nat}
    (hcount : dialogues.length = count) {es : List Exchange} {result : Option (List α)} :
    (all dialogues).Plays es result ↔
      ∃ tracks : Fin count → List Exchange, Interleaves tracks es ∧
        ((∃ values, (∀ i : Fin count, (dialogues[i]).Plays (tracks i) (some (values i))) ∧
            result = some (List.ofFn values)) ∨
          (result = none ∧ ∃ ends : Fin count → Option α,
            (∀ i : Fin count, (dialogues[i]).Plays (tracks i) (ends i)) ∧ ∃ i, ends i = none)) := by
  subst hcount
  simp only [all, plays_abreast, plays_done]
  constructor
  · rintro ⟨tracks, turns, hturns, ⟨values, after, rfl, hends, rfl, rfl⟩ | ⟨rfl, rfl, hcut⟩⟩
    · rw [List.append_nil]
      exact ⟨tracks, hturns, .inl ⟨values, hends, rfl⟩⟩
    · exact ⟨tracks, hturns, .inr ⟨rfl, hcut⟩⟩
  · rintro ⟨tracks, hturns, ⟨values, hends, rfl⟩ | ⟨rfl, hcut⟩⟩
    · exact ⟨tracks, es, hturns, .inl ⟨values, [], by simp, hends, rfl, rfl⟩⟩
    · exact ⟨tracks, es, hturns, .inr ⟨rfl, rfl, hcut⟩⟩

/-! ### Runs are plays -/

/-- Where one of several is missing, so are all together. -/
theorem mapM_eq_none {l : List (Option α)} (h : none ∈ l) : l.mapM id = none := by
  induction l with
  | nil => simp at h
  | cons a rest ih =>
    rw [List.mapM_cons]
    cases a with
    | none => rfl
    | some a => simp [ih (by simpa using h)]

/-- Where none of several is missing, each of them has a value. -/
theorem exists_values {count : Nat} {ends : Fin count → Option α} (h : ¬∃ i, ends i = none) :
    ∃ values : Fin count → α, ends = fun i => some (values i) := by
  have hsome i : (ends i).isSome := Option.isSome_iff_ne_none.2 fun hi => h ⟨i, hi⟩
  exact ⟨fun i => (ends i).get (hsome i), funext fun i => (Option.some_get (hsome i)).symm⟩

/-- What are all there are there together. -/
theorem mapM_some {κ : Type} (l : List κ) (values : κ → α) :
    (l.map fun i => some (values i)).mapM id = some (l.map values) := by
  rw [List.mapM_map]
  exact List.mapM_pure

section Runs
variable {σ : Type} {store : Store σ} {count : Nat} {branches : Fin count → Dialogue β}

/-- Runs branches one after the other, each from where the store was left. All start at the same
time, and what they end with is put after what was there before. -/
def runBranches (store : Store σ) (branches : Fin count → Dialogue β) (time : Nat)
    (l : List (Fin count)) (stand : Stand σ (List β)) : Stand σ (List β) :=
  l.foldl
    (fun stand i =>
      let branch := (branches i).run store time stand.state
      { result := do return (← stand.result) ++ [← branch.result]
        time := max stand.time branch.time
        state := branch.state })
    stand

theorem run_abreast {next : List β → Dialogue α} {time : Nat} {state : σ} :
    (abreast count branches next).run store time state =
      (runBranches store branches time (List.finRange count) ⟨some [], time, state⟩).andThen
        fun ends => (next ends).run store := rfl

/-- Branches that are run have plays that end together as the branches do. -/
theorem exists_plays_runBranches
    (hbranch : ∀ i time state,
      ∃ es, (branches i).Plays es ((branches i).run store time state).result)
    (time : Nat) {l : List (Fin count)} (hl : l.Nodup) (stand : Stand σ (List β)) :
    ∃ (tracks : Fin count → List Exchange) (ends : Fin count → Option β),
      (∀ i ∈ l, (branches i).Plays (tracks i) (ends i)) ∧
      (runBranches store branches time l stand).result =
        stand.result.bind fun earlier => ((l.map ends).mapM id).map (earlier ++ ·) := by
  induction l generalizing stand with
  | nil => exact ⟨fun _ => [], fun _ => none, by simp, by simp [runBranches]⟩
  | cons i rest ih =>
    obtain ⟨hi, hrest⟩ := List.nodup_cons.1 hl
    obtain ⟨es, hes⟩ := hbranch i time stand.state
    generalize hbranch : (branches i).run store time stand.state = branch at hes
    obtain ⟨tracks, ends, hends, hresult⟩ := ih hrest
      { result := do return (← stand.result) ++ [← branch.result]
        time := max stand.time branch.time
        state := branch.state }
    refine ⟨Function.update tracks i es, Function.update ends i branch.result, ?_, ?_⟩
    · intro j hj
      by_cases hji : j = i
      · subst hji
        simpa using hes
      · have hj : j ∈ rest := (List.mem_cons.1 hj).resolve_left hji
        simpa [hji] using hends j hj
    · have hmap : rest.map (Function.update ends i branch.result) = rest.map ends := by
        refine List.map_congr_left fun j hj => ?_
        rw [Function.update_of_ne]
        rintro rfl
        exact hi hj
      rw [List.map_cons, hmap, Function.update_self, List.mapM_cons]
      unfold runBranches at hresult ⊢
      rw [List.foldl_cons, hbranch, hresult]
      cases stand.result with
      | none => rfl
      | some earlier =>
        cases branch.result with
        | none => rfl
        | some a =>
          cases (rest.map ends).mapM id with
          | none => rfl
          | some later => simp

/-- **Whatever a store and a clock make of a dialogue is a play of it.** -/
theorem exists_plays_run (d : Dialogue α) (time : Nat) (state : σ) :
    ∃ es, d.Plays es (d.run store time state).result := by
  induction d generalizing time state with
  | done a => exact ⟨[], rfl, rfl⟩
  | cut => exact ⟨[], rfl, rfl⟩
  | pause length next ih => exact ih _ _
  | ask op request deadline next ih =>
    obtain ⟨es, hes⟩ := ih ((store op request time state).1.within deadline).1
      (time + ((store op request time state).1.within deadline).2) (store op request time state).2
    exact ⟨_, _, es, rfl, hes⟩
  | abreast count branches next hbranch ih =>
    obtain ⟨tracks, ends, hends, hresult⟩ := exists_plays_runBranches hbranch time
      (List.nodup_finRange count) ⟨some [], time, state⟩
    have hplays i := hends i (List.mem_finRange i)
    rw [run_abreast]
    generalize runBranches store branches time _ _ = together at hresult
    obtain ⟨result, time, state⟩ := together
    by_cases hcut : ∃ i, ends i = none
    · obtain ⟨i, hi⟩ := hcut
      have hnone := mapM_eq_none (List.mem_map.2 ⟨i, List.mem_finRange i, hi⟩)
      obtain rfl : result = none := by simpa [hnone] using hresult
      exact ⟨_, tracks, _, .of_flatMap tracks, .inr ⟨rfl, rfl, ends, hplays, i, hi⟩⟩
    · obtain ⟨values, rfl⟩ := exists_values hcut
      obtain rfl : result = some (List.ofFn values) := by
        simp only [mapM_some] at hresult
        simpa [List.ofFn_eq_map] using hresult
      obtain ⟨later, hlater⟩ := ih (List.ofFn values) time state
      exact ⟨_, tracks, _, .of_flatMap tracks, .inl ⟨values, later, rfl, hplays, hlater⟩⟩

end Runs

end Dialogue

/-! ### Calls -/

namespace Call
variable {α β : Type} {es : List Exchange}

/-- A play of a call and what comes after it: the call is cut, or it fails, or it succeeds and
there is a play of what comes then. -/
theorem plays_bind {x : Call α} {f : α → Call β} {result : Option (Outcome β)} :
    (x >>= f).run.Plays es result ↔
      (x.run.Plays es none ∧ result = none) ∨
      (∃ e, x.run.Plays es (some (.error e)) ∧ result = some (.error e)) ∨
      ∃ a before after, es = before ++ after ∧ x.run.Plays before (some (.ok a)) ∧
        (f a).run.Plays after result := by
  have hbind : (x >>= f).run = x.run.bind (ExceptT.bindCont f) := rfl
  rw [hbind, Dialogue.plays_bind]
  refine or_congr Iff.rfl ⟨?_, ?_⟩
  · rintro ⟨e | a, before, after, rfl, h, hf⟩
    · obtain ⟨rfl, rfl⟩ := hf
      exact .inl ⟨e, by simpa using h, rfl⟩
    · exact .inr ⟨a, before, after, rfl, h, hf⟩
  · rintro (⟨e, h, rfl⟩ | ⟨a, before, after, rfl, h, hf⟩)
    · exact ⟨.error e, es, [], by simp, h, rfl, rfl⟩
    · exact ⟨.ok a, before, after, rfl, h, hf⟩

/-- A call whose result is changed. -/
theorem plays_map {x : Call α} {g : α → β} {result : Option (Outcome β)} :
    (x >>= fun a => pure (g a)).run.Plays es result ↔
      ∃ before, x.run.Plays es before ∧ result = before.map (Except.map g) := by
  rw [plays_bind]
  constructor
  · rintro (⟨h, rfl⟩ | ⟨e, h, rfl⟩ | ⟨a, before, _, rfl, h, rfl, rfl⟩)
    · exact ⟨none, h, rfl⟩
    · exact ⟨some (.error e), h, rfl⟩
    · exact ⟨some (.ok a), by simpa using h, rfl⟩
  · rintro ⟨_ | e | a, h, rfl⟩
    · exact .inl ⟨h, rfl⟩
    · exact .inr (.inl ⟨e, h, rfl⟩)
    · exact .inr (.inr ⟨a, es, [], by simp, h, rfl, rfl⟩)

/-- What calls that were started at once come to: nothing if one was cut, else what they come to
in order. -/
def together {count : Nat} (ends : Fin count → Option (Outcome α)) :
    Option (Outcome (List α)) :=
  if h : ∀ i, (ends i).isSome then some ((List.ofFn fun i => (ends i).get (h i)).mapM id) else none

theorem together_some {count : Nat} (values : Fin count → Outcome α) :
    together (fun i => some (values i)) = some ((List.ofFn values).mapM id) := by
  simp [together]

theorem together_eq_none_iff {count : Nat} {ends : Fin count → Option (Outcome α)} :
    together ends = none ↔ ∃ i, ends i = none := by
  simp [together]

/-- Several outcomes are a success together when each of them is one. -/
theorem mapM_eq_ok_iff {l : List (Outcome α)} {as : List α} :
    l.mapM id = .ok as ↔ l = as.map .ok :=
  mapM_eq_ok_iff_eq_map fun _ _ => .rfl

/-- If several outcomes are a failure together, it is the failure of one of them. -/
theorem mem_of_mapM_eq_error {l : List (Outcome α)} {e : Failure} (h : l.mapM id = .error e) :
    .error e ∈ l := by
  induction l with
  | nil => simp [pure, Except.pure] at h
  | cons outcome rest ih =>
    rw [List.mapM_cons] at h
    cases outcome with
    | error e' => simp_all [bind, Except.bind]
    | ok a =>
      cases hrest : rest.mapM id with
      | error e' => simp_all [bind, Except.bind]
      | ok later => simp [hrest, bind, Except.bind, pure, Except.pure] at h

/-- Calls succeed together when each of them does. -/
theorem together_eq_ok_iff {count : Nat} {ends : Fin count → Option (Outcome α)} {as : List α} :
    together ends = some (.ok as) ↔
      ∃ values, (∀ i, ends i = some (.ok (values i))) ∧ as = List.ofFn values := by
  constructor
  · intro h
    unfold together at h
    split at h
    · next hends =>
      have hall := mapM_eq_ok_iff.1 (Option.some.inj h)
      obtain rfl : count = as.length := by simpa using congrArg List.length hall
      refine ⟨as.get, fun i => ?_, (List.ofFn_get as).symm⟩
      have hi := congrArg (fun l => l[i.val]?) hall
      rw [← Option.some_get (hends i)]
      simpa using hi
    · cases h
  · rintro ⟨values, hvalues, rfl⟩
    obtain rfl : ends = fun i => some (.ok (values i)) := funext hvalues
    have hall : List.ofFn (fun i => (.ok (values i) : Outcome α)) = (List.ofFn values).map .ok :=
      (List.map_ofFn ..).symm
    rw [together_some, mapM_eq_ok_iff.2 hall]

/-- Calls whose results are combined succeed when each of them does. -/
theorem map_together_eq_ok_iff {count : Nat} {ends : Fin count → Option (Outcome α)}
    {g : List α → β} {b : β} :
    (together ends).map (Except.map g) = some (.ok b) ↔
      ∃ values, (∀ i, ends i = some (.ok (values i))) ∧ b = g (List.ofFn values) := by
  constructor
  · intro h
    obtain ⟨outcome, houtcome, hb⟩ := Option.map_eq_some_iff.1 h
    cases outcome with
    | error e => cases hb
    | ok all =>
      obtain ⟨values, hvalues, rfl⟩ := together_eq_ok_iff.1 houtcome
      cases hb
      exact ⟨values, hvalues, rfl⟩
  · rintro ⟨values, hvalues, rfl⟩
    rw [together_eq_ok_iff.2 ⟨values, hvalues, rfl⟩]
    rfl

/-- If calls fail together, one of them does with the same failure. -/
theorem exists_of_together_eq_error {count : Nat} {ends : Fin count → Option (Outcome α)}
    {e : Failure} (h : together ends = some (.error e)) : ∃ i, ends i = some (.error e) := by
  unfold together at h
  split at h
  · next hends =>
    obtain ⟨i, hi⟩ := List.mem_ofFn.1 (mem_of_mapM_eq_error (Option.some.inj h))
    exact ⟨i, by rw [← hi, Option.some_get]⟩
  · cases h

/-- Calls that were started at once: each of them is played, and they take turns. -/
theorem plays_all {calls : List (Call α)} {count : Nat} (hcount : calls.length = count)
    {result : Option (Outcome (List α))} :
    (all calls).run.Plays es result ↔
      ∃ (tracks : Fin count → List Exchange) (ends : Fin count → Option (Outcome α)),
        Interleaves tracks es ∧
        (∀ i : Fin count, (calls[i]).run.Plays (tracks i) (ends i)) ∧ result = together ends := by
  have hrun : (all calls).run =
      (Dialogue.all (calls.map ExceptT.run)).bind fun ends => .done (ends.mapM id) :=
    Dialogue.bind_assoc (Dialogue.all (calls.map ExceptT.run))
      (fun ends => .done (.ok ends : Outcome _))
      (ExceptT.bindCont fun ends => ExceptT.mk (.done (ends.mapM id)))
  have hcount' : (calls.map ExceptT.run).length = count := by rw [List.length_map, hcount]
  rw [hrun, Dialogue.plays_bind]
  simp only [Dialogue.plays_all hcount', Dialogue.plays_done, Fin.getElem_fin, List.getElem_map]
  constructor
  · rintro (⟨⟨tracks, hturns, ⟨_, _, h⟩ | ⟨-, ends, hends, hcut⟩⟩, rfl⟩ |
      ⟨_, before, _, rfl, ⟨tracks, hturns, ⟨values, hends, h⟩ | ⟨h, _⟩⟩, rfl, rfl⟩)
    · cases h
    · exact ⟨tracks, ends, hturns, hends, (together_eq_none_iff.2 hcut).symm⟩
    · obtain rfl := Option.some.inj h
      rw [List.append_nil]
      exact ⟨tracks, _, hturns, hends, (together_some values).symm⟩
    · cases h
  · rintro ⟨tracks, ends, hturns, hends, rfl⟩
    by_cases hcut : ∃ i, ends i = none
    · exact .inl ⟨⟨tracks, hturns, .inr ⟨trivial, ends, hends, hcut⟩⟩, together_eq_none_iff.2 hcut⟩
    · obtain ⟨values, rfl⟩ := Dialogue.exists_values hcut
      refine .inr ⟨List.ofFn values, es, [], by simp, ⟨tracks, hturns, ?_⟩, rfl, ?_⟩
      · exact .inl ⟨values, hends, rfl⟩
      · exact together_some values

end Call

end TableClient
