import FeedLedger.Value.Literal

namespace FeedLedger

/-- A value that names no member of the choice. -/
structure UnknownMember where
  given : Value
  choice : String

namespace UnknownMember

def message (e : UnknownMember) : String := e.given.toLiteral ++ " is not a valid " ++ e.choice

/-- The member of a closed choice that a text names. -/
def resolve {α : Type} (choice : String) (name : α → String) (all : List α) (given : Value) :
    Except UnknownMember α :=
  match given with
  | .text s =>
    match all.find? (name · = s) with
    | some a => .ok a
    | none => .error ⟨given, choice⟩
  | _ => .error ⟨given, choice⟩

end UnknownMember

end FeedLedger
