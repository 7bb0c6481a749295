import FeedLedger.Record
import FeedLedger.Schema

namespace FeedLedger

inductive MalformedReason
  | missingRequiredFields
  | unknownTable
  deriving DecidableEq

namespace MalformedReason

def name : MalformedReason → String
  | missingRequiredFields => "missing_required_fields"
  | unknownTable => "unknown_table"

end MalformedReason

structure Malformed where
  table : String
  missing : List String
  reason : MalformedReason
  deriving DecidableEq

/-- A record whose fields have been converted and whose required fields are all present. -/
structure ValidRecord where
  schema : Schema
  values : List (String × Value)
  source : Record

namespace Record

def fieldValue (r : Record) (f : Field) : Value := (r.value f.key).coerce f.type

/-- The converted fields, by column. -/
def fieldValues (r : Record) (s : Schema) : List (String × Value) :=
  Keyed.ofPairs (s.fields.map fun f => (f.column, r.fieldValue f))

/-- The keys of the required fields without a value, in field order. -/
def missingKeys (r : Record) (s : Schema) : List String :=
  (s.fields.filter fun f => f.required && (r.fieldValue f).isNull).map (·.key)

/-- Classifies a record under the schema of its table, if there is one. -/
def validate (r : Record) : Option Schema → Except Malformed ValidRecord
  | none => .error ⟨r.table, [], .unknownTable⟩
  | some s =>
    if r.missingKeys s = [] then .ok ⟨s, r.fieldValues s, r⟩
    else .error ⟨s.table, r.missingKeys s, .missingRequiredFields⟩

theorem validate_eq_ok_iff {r : Record} {s : Schema} {v : ValidRecord} :
    r.validate (some s) = .ok v ↔ r.missingKeys s = [] ∧ v = ⟨s, r.fieldValues s, r⟩ := by
  unfold validate
  by_cases h : r.missingKeys s = []
  · simp [h, eq_comm]
  · simp [h]

theorem validate_eq_error_iff {r : Record} {s : Schema} {m : Malformed} :
    r.validate (some s) = .error m ↔
      r.missingKeys s ≠ [] ∧ m = ⟨s.table, r.missingKeys s, .missingRequiredFields⟩ := by
  unfold validate
  by_cases h : r.missingKeys s = []
  · simp [h]
  · simp [h, eq_comm]

theorem schema_of_validate {r : Record} {s : Schema} {v : ValidRecord}
    (h : r.validate (some s) = .ok v) : v.schema = s := by
  rw [(validate_eq_ok_iff.1 h).2]

end Record

end FeedLedger
