import TableClient.Wire.Choice

/-! What a request asks to be reported back. -/
namespace TableClient

/-- Which attributes of an item a write returns. -/
inductive ReturnValue where
  | none
  | allOld
  | updatedOld
  | allNew
  | updatedNew
deriving DecidableEq

instance : Inhabited ReturnValue := ⟨.none⟩

instance : Choice ReturnValue where
  all := [.none, .allOld, .updatedOld, .allNew, .updatedNew]
  word
    | .none => "NONE"
    | .allOld => "ALL_OLD"
    | .updatedOld => "UPDATED_OLD"
    | .allNew => "ALL_NEW"
    | .updatedNew => "UPDATED_NEW"

/-- Whether an item comes back when its condition does not hold. -/
inductive FailureReturn where
  | allOld
  | none
deriving DecidableEq

instance : Inhabited FailureReturn := ⟨.none⟩

instance : Choice FailureReturn where
  all := [.allOld, .none]
  word
    | .allOld => "ALL_OLD"
    | .none => "NONE"

/-- How much is reported about consumed capacity. -/
inductive CapacityReport where
  | indexes
  | total
  | none
deriving DecidableEq

instance : Inhabited CapacityReport := ⟨.none⟩

instance : Choice CapacityReport where
  all := [.indexes, .total, .none]
  word
    | .indexes => "INDEXES"
    | .total => "TOTAL"
    | .none => "NONE"

/-- Whether the size of item collections is reported. -/
inductive MetricsReport where
  | size
  | none
deriving DecidableEq

instance : Inhabited MetricsReport := ⟨.none⟩

instance : Choice MetricsReport where
  all := [.size, .none]
  word
    | .size => "SIZE"
    | .none => "NONE"

/-- Which attributes a read returns. -/
inductive Selection where
  | allAttributes
  | allProjectedAttributes
  | specificAttributes
  | count
deriving DecidableEq

instance : Inhabited Selection := ⟨.allAttributes⟩

instance : Choice Selection where
  all := [.allAttributes, .allProjectedAttributes, .specificAttributes, .count]
  word
    | .allAttributes => "ALL_ATTRIBUTES"
    | .allProjectedAttributes => "ALL_PROJECTED_ATTRIBUTES"
    | .specificAttributes => "SPECIFIC_ATTRIBUTES"
    | .count => "COUNT"

end TableClient
