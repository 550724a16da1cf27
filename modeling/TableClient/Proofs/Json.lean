import TableClient.Json
import TableClient.Proofs.KeyMap
import Mathlib.Data.List.Forall2

/-! JSON values but for the order of members.

The members of an object count by name, not by place. `Reorders` compares values that way, and
`reorders_canonical` says that the canonical form of a value is the value with its members in
another order, if no object has two members of one name. -/
namespace TableClient

namespace Json

theorem canonicalItems_eq_map (items : List Json) : canonicalItems items = items.map canonical := by
  induction items with
  | nil => rfl
  | cons item rest ih => rw [canonicalItems, ih, List.map_cons]

theorem canonicalMembers_eq_map (members : List (String × Json)) :
    canonicalMembers members = members.map (Prod.map id canonical) := by
  induction members with
  | nil => rfl
  | cons member rest ih =>
    rw [canonicalMembers, ih, List.map_cons]
    rfl

/-- No object in a value has two members of one name. -/
inductive NamesDiffer : Json → Prop where
  | null : NamesDiffer .null
  | bool (value : Bool) : NamesDiffer (.bool value)
  | int (value : Int) : NamesDiffer (.int value)
  | float (value : Float) : NamesDiffer (.float value)
  | str (text : String) : NamesDiffer (.str text)
  | fault (why : Fault) : NamesDiffer (.fault why)
  | arr {items : List Json} (h : ∀ item ∈ items, NamesDiffer item) : NamesDiffer (.arr items)
  | obj {members : List (String × Json)} (distinct : (members.map Prod.fst).Nodup)
      (h : ∀ member ∈ members, NamesDiffer member.2) : NamesDiffer (.obj members)

theorem NamesDiffer.single {name : String} {value : Json} (h : value.NamesDiffer) :
    NamesDiffer (.obj [(name, value)]) :=
  .obj (List.nodup_singleton name) fun member hmember => by
    rwa [List.mem_singleton.1 hmember]

/-- Two values are equal but for the order of the members of their objects. -/
inductive Reorders : Json → Json → Prop where
  | refl (value : Json) : Reorders value value
  | arr {items items' : List Json} (h : List.Forall₂ Reorders items items') :
    Reorders (.arr items) (.arr items')
  | obj {members between members' : List (String × Json)} (order : members.Perm between)
      (names : between.map Prod.fst = members'.map Prod.fst)
      (h : List.Forall₂ Reorders (between.map Prod.snd) (members'.map Prod.snd)) :
    Reorders (.obj members) (.obj members')

theorem reorders_canonical {value : Json} (h : value.NamesDiffer) :
    value.canonical.Reorders value := by
  induction h with
  | null => exact .refl _
  | bool b => exact .refl _
  | int n => exact .refl _
  | float x => exact .refl _
  | str text => exact .refl _
  | fault why => exact .refl _
  | arr _ ih =>
    rw [canonical, canonicalItems_eq_map]
    exact .arr (List.forall₂_map_left_iff.2 (List.forall₂_same.2 ih))
  | @obj members distinct _ ih =>
    rw [canonical, canonicalMembers_eq_map]
    have hnames := Sorted.map_fst_map canonical members
    have hperm : (Sorted.putAll [] (members.map (Prod.map id canonical))).Perm
        (members.map (Prod.map id canonical)) :=
      Sorted.putAll_perm (by rwa [List.nil_append, hnames])
    refine .obj hperm hnames ?_
    rw [List.map_map, List.forall₂_map_left_iff, List.forall₂_map_right_iff]
    exact List.forall₂_same.2 ih

end Json

end TableClient
