namespace Recalc.Toml

/-- What reads a part at the start of a text, and leaves the rest. -/
abbrev Reading := StateT (List Char) Option

namespace Reading

variable {α : Type}

def next? : Reading (Option Char) := fun cs => some (cs.head?, cs)

def one (p : Char → Bool) : Reading Char
  | c :: cs => if p c then some (c, cs) else none
  | [] => none

/-- All characters up to the first one outside a class. -/
def span (p : Char → Bool) : Reading (List Char) := fun cs => some (cs.takeWhile p, cs.dropWhile p)

def exactly (n : Nat) : Reading (List Char) := fun cs =>
  if cs.length < n then none else some (cs.take n, cs.drop n)

def word (s : String) : Reading Unit := fun cs =>
  if s.toList.isPrefixOf cs then some ((), cs.drop s.length) else none

/-- Nothing, where these characters do not come next. -/
def notBefore (s : String) : Reading Unit := fun cs =>
  if s.toList.isPrefixOf cs then none else some ((), cs)

/-- Nothing, at the end of the text. -/
def atEnd : Reading Unit := fun cs => if cs.isEmpty then some ((), cs) else none

/-- The same part again and again, as often as it comes next. A part has one character at least. -/
def manyFrom (item : Reading α) (cs : List Char) : List α × List Char :=
  match item cs with
  | none => ([], cs)
  | some (a, rest) =>
    if _h : rest.length < cs.length then
      let (later, rest) := manyFrom item rest
      (a :: later, rest)
    else ([], cs)
termination_by cs.length

def many (item : Reading α) : Reading (List α) := fun cs => some (manyFrom item cs)

def separated (item : Reading α) : Reading (List α) :=
  (do return (← item) :: (← many (do word ","; item))) <|> pure []

end Reading

end Recalc.Toml
