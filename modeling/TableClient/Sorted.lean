/-! Strictly ascending lists, the canonical form of a finite set.

`ofList` keeps every member of a list once, in ascending order; it is the form in
which two collections are compared when neither order nor repetition counts. -/
namespace TableClient.Sorted

section Insertion
variable {α : Type} [LT α] [DecidableLT α]

/-- Puts a member at its place in an ascending list; one already there stays once. -/
def insert (x : α) : List α → List α
  | [] => [x]
  | y :: rest =>
    if x < y then x :: y :: rest
    else if y < x then y :: insert x rest
    else y :: rest

/-- The members of a list, each once, in ascending order. -/
def ofList (members : List α) : List α :=
  members.foldr insert []

@[simp] theorem ofList_cons (x : α) (rest : List α) :
    ofList (x :: rest) = insert x (ofList rest) := rfl

end Insertion

section Entries
variable {α : Type}

/-- Puts an entry at its key's place in a list ascending by key; an entry already
there under the key is replaced. -/
def put (key : String) (value : α) : List (String × α) → List (String × α)
  | [] => [(key, value)]
  | (k, v) :: rest =>
    if key < k then (key, value) :: (k, v) :: rest
    else if k < key then (k, v) :: put key value rest
    else (key, value) :: rest

/-- The entries of a list, ascending by key; of several under one key the last stays. -/
def putAll (start entries : List (String × α)) : List (String × α) :=
  entries.foldl (fun acc entry => put entry.1 entry.2 acc) start

/-- The keys of a list ascend strictly. -/
def Ascending (entries : List (String × α)) : Prop :=
  (entries.map Prod.fst).Pairwise (· < ·)

theorem ascending_nil : Ascending ([] : List (String × α)) := List.Pairwise.nil

theorem key_mem_put {key k : String} {value : α} {l : List (String × α)}
    (h : k ∈ (put key value l).map Prod.fst) : k = key ∨ k ∈ l.map Prod.fst := by
  induction l with
  | nil => simpa [put] using h
  | cons entry rest ih =>
    obtain ⟨k', v'⟩ := entry
    unfold put at h
    split at h
    · simpa using h
    · split at h
      · simp only [List.map_cons, List.mem_cons] at h ⊢
        rcases h with h | h
        · exact Or.inr (Or.inl h)
        · rcases ih h with h | h
          · exact Or.inl h
          · exact Or.inr (Or.inr h)
      · simp only [List.map_cons, List.mem_cons] at h ⊢
        rcases h with h | h
        · exact Or.inl h
        · exact Or.inr (Or.inr h)

/-- Neither order between two texts leaves only equality. -/
theorem eq_of_not_lt {a b : String} (h : ¬a < b) (h' : ¬b < a) : a = b :=
  String.le_antisymm (String.not_lt.1 h') (String.not_lt.1 h)

theorem Ascending.put {key : String} {value : α} {l : List (String × α)}
    (h : Ascending l) : Ascending (put key value l) := by
  induction l with
  | nil => simp [Sorted.put, Ascending]
  | cons entry rest ih =>
    obtain ⟨k, v⟩ := entry
    unfold Ascending at h ih ⊢
    simp only [List.map_cons, List.pairwise_cons] at h
    unfold Sorted.put
    split
    · next lower =>
      simp only [List.map_cons, List.pairwise_cons, List.mem_cons]
      refine ⟨?_, h⟩
      rintro a (rfl | ha)
      · exact lower
      · exact String.lt_trans lower (h.1 a ha)
    · split
      · next upper =>
        simp only [List.map_cons, List.pairwise_cons]
        refine ⟨?_, ih h.2⟩
        intro a ha
        rcases key_mem_put ha with rfl | ha
        · exact upper
        · exact h.1 a ha
      · next lower upper =>
        obtain rfl := eq_of_not_lt lower upper
        simpa using h

theorem Ascending.putAll {start entries : List (String × α)} (h : Ascending start) :
    Ascending (putAll start entries) := by
  unfold Sorted.putAll
  induction entries generalizing start with
  | nil => exact h
  | cons entry rest ih => exact ih h.put

theorem Ascending.filter {p : String × α → Bool} {l : List (String × α)} (h : Ascending l) :
    Ascending (l.filter p) :=
  List.Pairwise.sublist (List.filter_sublist.map Prod.fst) h

end Entries

end TableClient.Sorted
