import Mathlib.Data.List.Sort
import TableClient.Proofs.Except
import TableClient.Proofs.Grammar.Update
import TableClient.Proofs.Minimal

/-! When two values are the same.

Values are compared in normal form, but what that comes to can be said without it. Two values are
the same if they are of one kind and hold the same: a set nothing but its members, a list and a map
values that are the same again (`AlikeBy`). That is a law of sameness (`sameAs_iff_alikeBy`) and of
no other relation (`iff_sameAs_of_law`), since values are nested only finitely deep
(`wellFounded_isPart`). A value is the same as its normal form, which is its own, and as any value
that comes of it by replacing some part by one that is the same (`Replaced.sameAs`). -/
namespace TableClient

/-! ### Ascending lists -/

namespace Sorted
variable {α : Type} [LT α] [DecidableLT α] [LE α] [Std.IsLinearOrder α] [Std.LawfulOrderLT α]

theorem mem_insert {x y : α} {l : List α} : y ∈ insert x l ↔ y = x ∨ y ∈ l := by
  induction l with
  | nil => simp [insert]
  | cons z rest ih =>
    unfold insert
    split
    · exact List.mem_cons
    · next lower =>
      split
      · rw [List.mem_cons, ih, List.mem_cons, or_left_comm]
      · next upper =>
        -- what is neither lower nor upper is there already
        obtain rfl : x = z := Std.le_antisymm (Std.not_lt.1 upper) (Std.not_lt.1 lower)
        rw [List.mem_cons, ← or_assoc, or_self]

theorem mem_ofList {members : List α} {y : α} : y ∈ ofList members ↔ y ∈ members := by
  induction members with
  | nil => rfl
  | cons x rest ih => rw [ofList_cons, mem_insert, ih, List.mem_cons]

theorem pairwise_insert {x : α} {l : List α} (h : l.Pairwise (· < ·)) :
    (insert x l).Pairwise (· < ·) := by
  induction l with
  | nil => exact List.pairwise_singleton _ x
  | cons z rest ih =>
    obtain ⟨least, later⟩ := List.pairwise_cons.1 h
    unfold insert
    split
    · next lower =>
      refine List.pairwise_cons.2 ⟨fun y member => ?_, h⟩
      rcases List.mem_cons.1 member with rfl | member
      · exact lower
      · exact Std.lt_trans lower (least y member)
    · split
      · next upper =>
        refine List.pairwise_cons.2 ⟨fun y member => ?_, ih later⟩
        rcases mem_insert.1 member with rfl | member
        · exact upper
        · exact least y member
      · exact h

theorem pairwise_ofList (members : List α) : (ofList members).Pairwise (· < ·) := by
  induction members with
  | nil => exact .nil
  | cons x rest ih => exact pairwise_insert ih

/-- Nothing but the members of a list makes its ascending form. -/
theorem ofList_eq_ofList_iff {s t : List α} : ofList s = ofList t ↔ ∀ m, m ∈ s ↔ m ∈ t := by
  constructor
  · intro same m
    rw [← mem_ofList, same, mem_ofList]
  · intro same
    refine (pairwise_ofList s).eq_of_mem_iff (pairwise_ofList t) fun m => ?_
    rw [mem_ofList, mem_ofList, same]

end Sorted

namespace AttributeValue

/-! ### What values hold -/

/-- Two values of one kind hold the same; whether the values in them are the same is for another
relation to say. -/
inductive AlikeBy (same : AttributeValue → AttributeValue → Prop) :
    AttributeValue → AttributeValue → Prop where
  | text (s : String) : AlikeBy same (.text s) (.text s)
  | number (digits : String) : AlikeBy same (.number digits) (.number digits)
  | binary (bytes : Bytes) : AlikeBy same (.binary bytes) (.binary bytes)
  /-- Neither the order nor the repetition of members counts. -/
  | textSet {s t : List String} (h : ∀ m, m ∈ s ↔ m ∈ t) : AlikeBy same (.textSet s) (.textSet t)
  | numberSet {s t : List String} (h : ∀ m, m ∈ s ↔ m ∈ t) :
    AlikeBy same (.numberSet s) (.numberSet t)
  | binarySet {s t : List Bytes} (h : ∀ m, m ∈ s ↔ m ∈ t) :
    AlikeBy same (.binarySet s) (.binarySet t)
  | bool (b : Bool) : AlikeBy same (.bool b) (.bool b)
  | null (b : Bool) : AlikeBy same (.null b) (.null b)
  /-- Lists are of one length. -/
  | list {s t : List AttributeValue} (h : List.Forall₂ same s t) : AlikeBy same (.list s) (.list t)
  /-- Maps have the same keys. -/
  | map {m n : KeyMap AttributeValue} (h : ∀ key, Option.Rel same (m.get? key) (n.get? key)) :
    AlikeBy same (.map m) (.map n)

/-- A value stands right in another. -/
inductive IsPart : AttributeValue → AttributeValue → Prop where
  | item {v : AttributeValue} {items : List AttributeValue} (h : v ∈ items) : IsPart v (.list items)
  | entry {v : AttributeValue} {key : String} {m : KeyMap AttributeValue}
    (h : m.get? key = some v) : IsPart v (.map m)

variable {r r' : AttributeValue → AttributeValue → Prop} {a b v w : AttributeValue}

theorem AlikeBy.mono (h : AlikeBy r a b) (hr : ∀ v, IsPart v a → ∀ w, r v w → r' v w) :
    AlikeBy r' a b := by
  cases h with
  | text s => exact .text s
  | number digits => exact .number digits
  | binary bytes => exact .binary bytes
  | textSet h => exact .textSet h
  | numberSet h => exact .numberSet h
  | binarySet h => exact .binarySet h
  | bool b => exact .bool b
  | null b => exact .null b
  | @list s t h =>
    have members := (List.forall₂_and_left _ _).2 ⟨fun v (member : v ∈ s) => member, h⟩
    exact .list (members.imp fun v w ⟨member, related⟩ => hr v (.item member) w related)
  | @map m n h =>
    refine .map fun key => ?_
    have related := h key
    generalize found : m.get? key = first, n.get? key = second at related ⊢
    cases related with
    | none => exact .none
    | some related => exact .some (hr _ (.entry found) _ related)

/-! ### Sameness is structural -/

theorem normalizedMap_eq_map (m : KeyMap AttributeValue) : normalizedMap m = m.map normalized := by
  obtain ⟨keys, value⟩ := m
  rw [normalizedMap]
  rfl

theorem map_eq_map_iff_rel {α β : Type} {f : α → β} {x y : Option α} :
    x.map f = y.map f ↔ Option.Rel (fun v w => f v = f w) x y := by
  cases x <;> cases y <;> simp

/-- Two values have one normal form if they hold the same but for the normal forms of the values in
them. -/
theorem normalized_eq_iff :
    a.normalized = b.normalized ↔ AlikeBy (fun v w => v.normalized = w.normalized) a b := by
  constructor
  · intro same
    -- a normal form is of the kind of its value, which leaves values of one kind
    cases a <;> cases b <;>
      simp only [normalized, normalizedList_eq_map, normalizedMap_eq_map, reduceCtorEq, text.injEq,
        number.injEq, binary.injEq, textSet.injEq, numberSet.injEq, binarySet.injEq, bool.injEq,
        null.injEq, list.injEq, map.injEq] at same
    case text.text => exact same ▸ .text _
    case number.number => exact same ▸ .number _
    case binary.binary => exact same ▸ .binary _
    case textSet.textSet => exact .textSet (Sorted.ofList_eq_ofList_iff.1 same)
    case numberSet.numberSet => exact .numberSet (Sorted.ofList_eq_ofList_iff.1 same)
    case binarySet.binarySet => exact .binarySet (Sorted.ofList_eq_ofList_iff.1 same)
    case bool.bool => exact same ▸ .bool _
    case null.null => exact same ▸ .null _
    case list.list => exact .list (map_eq_map_iff_forall₂.1 same)
    case map.map m n =>
      refine .map fun key => map_eq_map_iff_rel.1 ?_
      rw [← KeyMap.get?_map, same, KeyMap.get?_map]
  · intro alike
    cases alike with
    | text s => rfl
    | number digits => rfl
    | binary bytes => rfl
    | textSet h | numberSet h | binarySet h =>
      rw [normalized, normalized, Sorted.ofList_eq_ofList_iff.2 h]
    | bool b => rfl
    | null b => rfl
    | list h => rw [normalized_list, normalized_list, map_eq_map_iff_forall₂.2 h]
    | map h =>
      rw [normalized, normalized, normalizedMap_eq_map, normalizedMap_eq_map, map.injEq]
      refine KeyMap.ext_get? fun key => ?_
      rw [KeyMap.get?_map, KeyMap.get?_map, map_eq_map_iff_rel.2 (h key)]

theorem sameAs_iff_alikeBy :
    a.sameAs b = true ↔ AlikeBy (fun v w => v.sameAs w = true) a b := by
  simp only [Bindings.sameAs_iff]
  exact normalized_eq_iff

/-! ### Values are nested finitely deep -/

mutual
theorem acc_isPart : ∀ a, Acc IsPart a
  | .list items => .intro _ fun v part => by
    cases part with
    | item member => exact acc_items items v member
  | .map m => .intro _ fun v part => by
    cases part with
    | entry found => exact acc_entries m _ v found
  | .text _ | .number _ | .binary _ | .textSet _ | .numberSet _ | .binarySet _ | .bool _
  | .null _ => .intro _ nofun

theorem acc_items : ∀ items : List AttributeValue, ∀ v ∈ items, Acc IsPart v
  | [] => nofun
  | item :: rest => List.forall_mem_cons.2 ⟨acc_isPart item, acc_items rest⟩

theorem acc_entries : ∀ (m : KeyMap AttributeValue) (key : String) (v : AttributeValue),
    m.get? key = some v → Acc IsPart v
  | ⟨keys, value⟩ => by
    have each : ∀ i, Acc IsPart (value i) := fun i => acc_isPart (value i)
    intro key v found
    obtain ⟨i, rfl⟩ := List.mem_ofFn.1 (List.of_mem_zip (KeyMap.mem_toList.2 found)).2
    exact each i
end

theorem wellFounded_isPart : WellFounded IsPart := ⟨acc_isPart⟩

/-- Sameness is the one relation that is as the values in its values are. -/
theorem iff_sameAs_of_law (law : ∀ a b, r a b ↔ AlikeBy r a b) (a b : AttributeValue) :
    r a b ↔ a.sameAs b = true := by
  -- two relations that obey the law agree on values if they do on their parts
  induction a using wellFounded_isPart.induction generalizing b with
  | _ a ih =>
    rw [law, sameAs_iff_alikeBy]
    exact ⟨fun alike => alike.mono fun v part w => (ih v part w).1,
      fun alike => alike.mono fun v part w => (ih v part w).2⟩

/-! ### Normal forms -/

theorem sameAs_equivalence : Equivalence fun a b : AttributeValue => a.sameAs b = true where
  refl a := (Bindings.sameAs_iff a a).2 rfl
  symm h := (Bindings.sameAs_iff _ _).2 ((Bindings.sameAs_iff _ _).1 h).symm
  trans h h' := (Bindings.sameAs_iff _ _).2 <|
    ((Bindings.sameAs_iff _ _).1 h).trans ((Bindings.sameAs_iff _ _).1 h')

/-- A normal form is its own. -/
theorem normalized_normalized (a : AttributeValue) : a.normalized.normalized = a.normalized := by
  induction a using wellFounded_isPart.induction with
  | _ a ih =>
    rw [normalized_eq_iff]
    cases a with
    | text s => exact .text s
    | number digits => exact .number digits
    | binary bytes => exact .binary bytes
    | textSet members => exact .textSet fun m => Sorted.mem_ofList
    | numberSet members => exact .numberSet fun m => Sorted.mem_ofList
    | binarySet members => exact .binarySet fun m => Sorted.mem_ofList
    | bool b => exact .bool b
    | null b => exact .null b
    | list items =>
      rw [normalized_list]
      refine .list (List.forall₂_map_left_iff.2 (List.forall₂_same.2 fun v member => ?_))
      exact ih v (.item member)
    | map m =>
      rw [normalized, normalizedMap_eq_map]
      refine .map fun key => ?_
      rw [KeyMap.get?_map]
      cases found : m.get? key with
      | none => exact .none
      | some v => exact .some (ih v (.entry found))

/-! ### Replacing a part -/

/-- One value comes of another by putting `w` for `v` at one place in it. -/
inductive Replaced (v w : AttributeValue) : AttributeValue → AttributeValue → Prop where
  | here : Replaced v w v w
  | item {a b : AttributeValue} (before after : List AttributeValue) (h : Replaced v w a b) :
    Replaced v w (.list (before ++ a :: after)) (.list (before ++ b :: after))
  | entry {a b : AttributeValue} {key : String} {m : KeyMap AttributeValue}
    (found : m.get? key = some a) (h : Replaced v w a b) :
    Replaced v w (.map m) (.map (m.insert key b))

theorem Replaced.sameAs (h : Replaced v w a b) (same : v.sameAs w = true) : a.sameAs b = true := by
  induction h with
  | here => exact same
  | item before after h ih =>
    rw [Bindings.sameAs_iff] at ih ⊢
    simp only [normalized_list, List.map_append, List.map_cons, ih]
  | @entry a b key m found h ih =>
    refine sameAs_iff_alikeBy.2 (.map fun k => ?_)
    by_cases at_key : k = key
    · subst at_key
      rw [found, KeyMap.get?_insert_self]
      exact .some ih
    · rw [KeyMap.get?_insert_of_ne m at_key]
      cases m.get? k with
      | none => exact .none
      | some other => exact .some (sameAs_equivalence.refl other)

/-- **Values are the same exactly if they are equal but for the order and repetition of the members
of sets.** Sameness obeys the law that two values are the same if they are of one kind and hold the
same, and no other relation obeys it. It is an equivalence. A value is the same as its normal form,
which is its own normal form, and stays the same if any value in it is replaced by one that is the
same. -/
theorem sameAs_structural :
    (∀ a b : AttributeValue, a.sameAs b = true ↔ AlikeBy (fun v w => v.sameAs w = true) a b) ∧
    (∀ r, (∀ a b, r a b ↔ AlikeBy r a b) →
      ∀ a b : AttributeValue, r a b ↔ a.sameAs b = true) ∧
    (Equivalence fun a b : AttributeValue => a.sameAs b = true) ∧
    (∀ a : AttributeValue,
      a.normalized.normalized = a.normalized ∧ a.sameAs a.normalized = true) ∧
    ∀ v w a b : AttributeValue, v.sameAs w = true → Replaced v w a b → a.sameAs b = true := by
  refine ⟨fun _ _ => sameAs_iff_alikeBy, fun _ => iff_sameAs_of_law, sameAs_equivalence,
    fun a => ⟨a.normalized_normalized, ?_⟩, fun _ _ _ _ same replaced => replaced.sameAs same⟩
  exact (Bindings.sameAs_iff _ _).2 a.normalized_normalized.symm

/-- A set in a list in a map may be written in another way, which leaves the normal form of the map
as it is. Two sets in a list may not change places. -/
theorem sameAs_structural_nested :
    let tagged (members : List String) : AttributeValue :=
      .map (.ofList [("tags", .list [.bool true, .textSet members])])
    (tagged ["b", "a", "b"]).sameAs (tagged ["a", "b"]) = true ∧
      (tagged ["b", "a", "b"]).normalized = (tagged ["a", "b"]).normalized ∧
      ¬(list [.textSet ["a"], .textSet ["b"]]).sameAs (.list [.textSet ["b"], .textSet ["a"]]) =
        true := by
  intro tagged
  obtain ⟨law, only, -, -, replacing⟩ := sameAs_structural
  have same : (tagged ["b", "a", "b"]).sameAs (tagged ["a", "b"]) = true := by
    refine replacing (.textSet ["b", "a", "b"]) (.textSet ["a", "b"]) _ _ (by decide +kernel) ?_
    have put : tagged ["a", "b"] = .map ((KeyMap.ofList [("tags",
        .list [.bool true, .textSet ["b", "a", "b"]])]).insert "tags"
          (.list [.bool true, .textSet ["a", "b"]])) := by decide +kernel
    rw [put]
    exact .entry (KeyMap.get?_single _ _) (.item [.bool true] [] .here)
  refine ⟨same, (only (fun a b => a.normalized = b.normalized) (fun _ _ => normalized_eq_iff)
    _ _).2 same, fun swapped => ?_⟩
  cases (law _ _).1 swapped with
  | list items =>
    cases items with
    | cons first _ =>
      cases (law _ _).1 first with
      | textSet members => exact absurd ((members "a").1 List.mem_cons_self) (by decide)

end AttributeValue

end TableClient
