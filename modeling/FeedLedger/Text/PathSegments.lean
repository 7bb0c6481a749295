namespace FeedLedger.Text

def splitAt (mark : Char) : List Char → List (List Char)
  | [] => [[]]
  | c :: r =>
    match splitAt mark r with
    | [] => [[c]]
    | part :: rest => if c = mark then [] :: part :: rest else (c :: part) :: rest

def joinWith (mark : Char) : List (List Char) → List Char
  | [] => []
  | [part] => part
  | part :: rest => part ++ mark :: joinWith mark rest

/-- Carries out the segments `.` and `..`: the first stays in place, the second goes one segment up, though not
above the root. `done` holds the segments so far, the last one first. -/
def followDots (done : List (List Char)) : List (List Char) → List (List Char)
  | [] => done.reverse
  | ['.'] :: r => followDots done r
  | ['.', '.'] :: r => followDots (match done with | [] | [[]] => done | _ :: up => up) r
  | part :: r => followDots (part :: done) r

def withoutDots (path : List Char) : List Char := joinWith '/' (followDots [] (splitAt '/' path))

end FeedLedger.Text
