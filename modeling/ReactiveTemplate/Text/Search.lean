/-!
# Searching for a text

The first occurrence of a text in another, and the replacement of all its occurrences from left to
right.
-/

namespace ReactiveTemplate.Text

/-- The characters before the first occurrence of `sought` and those behind it. -/
def cutAt? (sought : List Char) : List Char → Option (List Char × List Char)
  | [] => if sought.isEmpty then some ([], []) else none
  | c :: cs =>
    if sought.isPrefixOf (c :: cs) then some ([], (c :: cs).drop sought.length)
    else (cutAt? sought cs).map fun (before, behind) => (c :: before, behind)

/-- Every occurrence of `sought`, which is not empty, replaced. What is put in is not searched. -/
def replaceAll (sought new : List Char) (text : List Char) : List Char :=
  match text with
  | [] => []
  | c :: cs =>
    if sought.isPrefixOf (c :: cs) then new ++ replaceAll sought new (cs.drop (sought.length - 1))
    else c :: replaceAll sought new cs
termination_by text.length
decreasing_by
  all_goals simp only [List.length_drop, List.length_cons]; omega

end ReactiveTemplate.Text
