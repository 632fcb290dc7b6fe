/-!
# Choosing the best candidate

Every choice of the solver has one shape: walk over candidates in order, and keep
the first one whose mark is strictly better than the best mark so far.
-/

namespace MixedInteger

variable {β μ : Type}

/-- Walks over candidates with their marks, and keeps a candidate whenever its
mark beats the mark to beat. -/
def selectFrom (beats : μ → μ → Bool) : μ → Option β → List (β × μ) → Option β
  | _, best, [] => best
  | mark, best, (candidate, candidateMark) :: rest =>
    if beats candidateMark mark then selectFrom beats candidateMark (some candidate) rest
    else selectFrom beats mark best rest

/-- The first candidate with the best mark, if any mark beats the one to start
from. -/
def select (beats : μ → μ → Bool) (mark : μ) (candidates : List (β × μ)) : Option β :=
  selectFrom beats mark none candidates

end MixedInteger
