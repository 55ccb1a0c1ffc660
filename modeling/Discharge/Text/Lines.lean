/-!
# Lines

A line ends at a line feed, or at the end of the text if something is left
there. A carriage return before the line feed belongs to the end of the line.
-/

namespace Discharge.Text

/-- The first line of the characters, and what follows its line feed, if it has
one. -/
def splitLine : List Char → List Char × Option (List Char)
  | [] => ([], none)
  | '\n' :: cs => ([], some cs)
  | '\r' :: '\n' :: cs => ([], some cs)
  | c :: cs =>
    let (line, rest) := splitLine cs
    (c :: line, rest)

/-- What follows the first line is shorter than the whole. -/
theorem length_of_splitLine {cs line rest : List Char} (h : splitLine cs = (line, some rest)) :
    rest.length < cs.length := by
  fun_induction splitLine cs generalizing line with
  | case1 => simp at h
  | case2 cs | case3 cs =>
    obtain ⟨_, rfl⟩ := by simpa only [Prod.mk.injEq, Option.some.injEq] using h
    simp only [List.length_cons]
    omega
  | case4 c cs _ _ line' rest' h' ih =>
    simp only [Prod.mk.injEq] at h
    obtain ⟨_, rfl⟩ := h
    have := ih h'
    simp only [List.length_cons]
    omega

/-- The lines of the characters. -/
def lineChars (cs : List Char) : List (List Char) :=
  if cs.isEmpty then []
  else match _ : splitLine cs with
    | (line, none) => [line]
    | (line, some rest) => line :: lineChars rest
termination_by cs.length
decreasing_by exact length_of_splitLine ‹_›

def lines (s : String) : List String :=
  (lineChars s.toList).map String.ofList

end Discharge.Text
