import FeedLedger.Text.DecimalDigit

namespace FeedLedger.Placeholder

/-- The placeholder that a text begins with, without its first two characters: its name, and what follows it. -/
def split? (s : List Char) : Option (List Char × List Char) :=
  let name := s.takeWhile (· ≠ ')')
  match s.drop name.length with
  | ')' :: 's' :: rest => if name = [] then none else some (name, rest)
  | _ => none

theorem length_of_split? {s name rest : List Char} (h : split? s = some (name, rest)) : rest.length < s.length := by
  unfold split? at h
  simp only at h
  split at h
  · rename_i hd
    split at h
    · cases h
    · cases h
      have := congrArg List.length hd
      simp at this
      omega
  · cases h

/-- Puts question marks for the placeholders of known names. A placeholder is written with its name, `%(name)s`. -/
def countedChars (names : List (List Char)) : List Char → List Char
  | [] => []
  | '%' :: '(' :: r =>
    match h : split? r with
    | some (name, rest) =>
      have := length_of_split? h
      (if names.contains name then ['?'] else '%' :: '(' :: name ++ [')', 's']) ++ countedChars names rest
    | none => '%' :: countedChars names ('(' :: r)
  | c :: r => c :: countedChars names r
termination_by s => s.length

/-- A text without percent signs holds no placeholder. -/
theorem countedChars_eq_self {names : List (List Char)} {s : List Char} (h : '%' ∉ s) : countedChars names s = s := by
  fun_induction countedChars names s with
  | case1 => rfl
  | case2 => simp at h
  | case3 => simp at h
  | case4 c r _ ih => rw [ih fun hr => h (List.mem_cons_of_mem _ hr)]

/-- A text with a question mark for each placeholder of a known name. -/
def counted (names : List String) (s : String) : String :=
  String.ofList (countedChars (names.map (·.toList)) s.toList)

end FeedLedger.Placeholder
