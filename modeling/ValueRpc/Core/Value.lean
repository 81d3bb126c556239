/-
  ValueRpc.Core.Value — what the stream code tells apart about a `value.Value`: the Go
  nil, the `value.Null` sentinel, and a payload.

  A value put in an envelope and read back by the peer is `wire v`: a nil field decodes
  as `value.Null`, so a decoded value is never nil. Receivers test for an absent payload
  in two ways: `val != value.Null` (the server's `servingRequest`), and
  `v != nil && v.Kind() != value.NULL` (everyone else). On decoded values the two agree
  (`ne_null_wire`).
-/

namespace ValueRpc.Core

inductive Value (α : Type) where
  | nil
  | null
  | data (a : α)
  deriving DecidableEq, Repr

namespace Value

variable {α : Type}

def wire : Value α → Value α
  | nil => null
  | v => v

/-- `v != nil && v.Kind() != value.NULL`. -/
def isData : Value α → Bool
  | data _ => true
  | _ => false

/-- `v != value.Null`. -/
def neNull : Value α → Bool
  | null => false
  | _ => true

@[simp] theorem isData_wire (v : Value α) : v.wire.isData = v.isData := by cases v <;> rfl

@[simp] theorem wire_ne_nil (v : Value α) : v.wire ≠ nil := by cases v <;> simp [wire]

theorem wire_of_isData {v : Value α} (h : v.isData = true) : v.wire = v := by
  cases v with
  | data _ => rfl
  | _ => cases h

/-- The two tests for a payload agree on what comes off the wire. -/
theorem ne_null_wire (v : Value α) : v.wire.neNull = v.wire.isData := by cases v <;> rfl

end Value

end ValueRpc.Core
