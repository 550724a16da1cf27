import TableClient.Sorted

/-! Finite maps from text keys.

A map is its ascending list of keys with one value per position. No proof in it speaks
of a value, so a type may hold a map of itself, and two maps with the same entries
are equal. `toList` is the view: every operation is described by the ascending list of
entries it leaves. -/
namespace TableClient

/-- Keys in ascending order, each once. -/
structure KeySet where
  names : List String
  ascending : names.Pairwise (· < ·)
deriving DecidableEq

/-- A finite map from text keys to `α`. -/
structure KeyMap (α : Type) where
  keys : KeySet
  value : Fin keys.names.length → α

namespace KeyMap
variable {α β : Type}

/-- The entries in ascending order of their keys. -/
def toList (m : KeyMap α) : List (String × α) :=
  m.keys.names.zip (List.ofFn m.value)

/-- The map whose entries are those of an ascending list. -/
def ofAscending (entries : List (String × α)) (h : Sorted.Ascending entries) : KeyMap α :=
  ⟨⟨entries.map Prod.fst, h⟩, fun i => (entries.get (i.cast (List.length_map _))).2⟩

theorem map_fst_toList (m : KeyMap α) : m.toList.map Prod.fst = m.keys.names := by
  simp [toList, List.map_fst_zip]

theorem ascending_toList (m : KeyMap α) : Sorted.Ascending m.toList := by
  unfold Sorted.Ascending
  rw [map_fst_toList]
  exact m.keys.ascending

@[simp] theorem toList_ofAscending (entries : List (String × α)) (h : Sorted.Ascending entries) :
    (ofAscending entries h).toList = entries := by
  apply List.ext_getElem
  · simp [toList, ofAscending]
  · intro i h₁ h₂
    simp [toList, ofAscending]

/-- Two maps with the same entries are equal. -/
theorem toList_injective {m n : KeyMap α} (h : m.toList = n.toList) : m = n := by
  obtain ⟨⟨ks, hk⟩, v⟩ := m
  obtain ⟨⟨ks', hk'⟩, v'⟩ := n
  have hkeys : ks = ks' := by
    have := congrArg (List.map Prod.fst) h
    rwa [map_fst_toList, map_fst_toList] at this
  subst hkeys
  congr
  have hv := congrArg (List.map Prod.snd) h
  simp only [toList] at hv
  rw [List.map_snd_zip (by simp), List.map_snd_zip (by simp)] at hv
  funext i
  simpa using congrArg (fun l => l[i.val]?) hv

/-! ### Operations -/

/-- The map without entries. -/
def empty : KeyMap α := ofAscending [] Sorted.ascending_nil

instance : EmptyCollection (KeyMap α) := ⟨empty⟩
instance : Inhabited (KeyMap α) := ⟨empty⟩

/-- The map of a list of entries; of several under one key the last counts. -/
def ofList (entries : List (String × α)) : KeyMap α :=
  ofAscending (Sorted.putAll [] entries) Sorted.ascending_nil.putAll

/-- The map with one entry set. -/
def insert (m : KeyMap α) (key : String) (value : α) : KeyMap α :=
  ofAscending (Sorted.put key value m.toList) m.ascending_toList.put

/-- The map with the given entries set, in order. -/
def insertAll (m : KeyMap α) (entries : List (String × α)) : KeyMap α :=
  ofAscending (Sorted.putAll m.toList entries) m.ascending_toList.putAll

/-- The entries that satisfy a test. -/
def filter (m : KeyMap α) (p : String → α → Bool) : KeyMap α :=
  ofAscending (m.toList.filter fun entry => p entry.1 entry.2) m.ascending_toList.filter

/-- The same keys with each value changed. -/
def map (f : α → β) (m : KeyMap α) : KeyMap β :=
  ⟨m.keys, fun i => f (m.value i)⟩

/-- The value under a key. -/
def get? (m : KeyMap α) (key : String) : Option α :=
  m.toList.lookup key

/-- The map with lists put after those under the same keys. -/
def extend (m n : KeyMap (List α)) : KeyMap (List α) :=
  n.toList.foldl (fun m entry => m.insert entry.1 ((m.get? entry.1).getD [] ++ entry.2)) m

/-- The number of entries. -/
def size (m : KeyMap α) : Nat := m.keys.names.length

/-- Whether there are no entries. -/
def isEmpty (m : KeyMap α) : Bool := m.keys.names.isEmpty

/-- The keys in ascending order. -/
def keyList (m : KeyMap α) : List String := m.keys.names

/-- The values in ascending order of their keys. -/
def valueList (m : KeyMap α) : List α := List.ofFn m.value

@[simp] theorem toList_empty : (empty : KeyMap α).toList = [] := by
  simp [empty]

@[simp] theorem toList_ofList (entries : List (String × α)) :
    (ofList entries).toList = Sorted.putAll [] entries := by
  simp [ofList]

@[simp] theorem toList_insert (m : KeyMap α) (key : String) (value : α) :
    (m.insert key value).toList = Sorted.put key value m.toList := by
  simp [insert]

@[simp] theorem toList_insertAll (m : KeyMap α) (entries : List (String × α)) :
    (m.insertAll entries).toList = Sorted.putAll m.toList entries := by
  simp [insertAll]

@[simp] theorem toList_filter (m : KeyMap α) (p : String → α → Bool) :
    (m.filter p).toList = m.toList.filter fun entry => p entry.1 entry.2 := by
  simp [filter]

theorem isEmpty_eq (m : KeyMap α) : m.isEmpty = m.toList.isEmpty := by
  rw [isEmpty, ← map_fst_toList, List.isEmpty_map]

theorem size_eq (m : KeyMap α) : m.size = m.toList.length := by
  rw [size, ← map_fst_toList, List.length_map]

/-- Equality is decided entry by entry. -/
def decideEq (m n : KeyMap α) (decideValue : ∀ i j, Decidable (m.value i = n.value j)) :
    Decidable (m = n) :=
  match m, n, decideValue with
  | ⟨ks, v⟩, ⟨ks', v'⟩, decideValue =>
    if h : ks = ks' then by
      subst h
      have : DecidablePred fun i => v i = v' i := fun i => decideValue i i
      exact if hv : ∀ i, v i = v' i then isTrue (by rw [funext hv])
        else isFalse (by intro e; cases e; exact hv fun _ => rfl)
    else isFalse (by intro e; cases e; exact h rfl)

instance [DecidableEq α] : DecidableEq (KeyMap α) := fun m n =>
  decideEq m n fun _ _ => inferInstance

end KeyMap

end TableClient
