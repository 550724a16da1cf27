import TableClient.Number.Digits
import TableClient.Text.Quoted

/-! Attribute paths, places inside an item.

A path is a list of names and list indices. It is read leniently from a text: points
separate the parts, and a part may end in indices in brackets. A part whose brackets hold
anything else is one name as it stands. Whether a path leads anywhere is only decided when
it is rendered. -/
namespace TableClient

/-- One step of a path. -/
inductive Segment where
  /-- An attribute, or an entry of a map. -/
  | name (text : String)
  /-- An item of a list. -/
  | index (position : Nat)
deriving DecidableEq

/-- A place inside an item. -/
structure Path where
  segments : List Segment
deriving DecidableEq

namespace Path

instance : Inhabited Path := ⟨⟨[]⟩⟩

/-! ### Reading -/

/-- The parts of a text between its points. -/
def parts : List Char → List (List Char)
  | [] => [[]]
  | c :: rest =>
    if c = '.' then [] :: parts rest
    else
      match parts rest with
      | [] => [[c]]
      | part :: others => (c :: part) :: others

/-- The indices of a text that is nothing but numbers, each in brackets. -/
def indices? (chars : List Char) : Option (List Nat) :=
  match chars with
  | [] => some []
  | c :: rest =>
    if c ≠ '[' then none
    else
      match h : rest.dropWhile (· ≠ ']') with
      | [] => none
      | _ :: after =>
        have : after.length < (c :: rest).length := by
          have := congrArg List.length h
          have hle := (List.dropWhile_sublist (fun x : Char => x ≠ ']') (l := rest)).length_le
          simp only [List.length_cons] at this ⊢
          omega
        match Number.readUpTo Number.max64 (rest.takeWhile (· ≠ ']')), indices? after with
        | some n, some others => some (n :: others)
        | _, _ => none
termination_by chars.length
decreasing_by exact this

/-- The segments of one part. A part that is nothing but indices also has an empty name,
except at the very start of a path. -/
def partSegments (start : Bool) (part : List Char) : List Segment :=
  let name := part.takeWhile (· ≠ '[')
  match indices? (part.dropWhile (· ≠ '[')) with
  | none => [.name (String.ofList part)]
  | some [] => [.name (String.ofList name)]
  | some indices =>
    if name = [] ∧ start then indices.map .index
    else .name (String.ofList name) :: indices.map .index

/-- The segments of the parts, in order. -/
def partsSegments (start : Bool) : List (List Char) → List Segment
  | [] => []
  | part :: rest => partSegments start part ++ partsSegments false rest

/-- Reads a path. The empty text is the path without segments. -/
def parse (text : String) : Path :=
  if text.isEmpty then ⟨[]⟩
  else ⟨partsSegments true (parts text.toList)⟩

/-! ### Writing -/

/-- The text of a segment that is not the first. -/
def Segment.later : Segment → String
  | .name text => "." ++ text
  | .index n => "[" ++ toString n ++ "]"

/-- The text of a segment that is the first. -/
def Segment.leading : Segment → String
  | .name text => text
  | .index n => "[" ++ toString n ++ "]"

/-- The text of a path. -/
def display (path : Path) : String :=
  match path.segments with
  | [] => ""
  | first :: rest => Segment.leading first ++ String.join (rest.map Segment.later)

end Path

end TableClient
