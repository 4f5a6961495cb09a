import EntityGraph.Branch.Basic

/-!
# Forests of branches

What is asked for as a whole: branches, and below every branch what is asked for at the
entity it leads to. Equal branches of one entity are one branch. A forest is determined by the
paths of branches in it and by the order in which they were added; merging, which adds the
paths of a second forest, is the only operation needed to build one.
-/
namespace EntityGraph

inductive Forest where
  | nil
  | cons (branch : Branch) (below rest : Forest)
  deriving DecidableEq, Repr

namespace Forest

/-- Change what hangs below a branch, which is added last if it is not there. -/
def update (branch : Branch) (f : Forest → Forest) : Forest → Forest
  | nil => cons branch (f nil) nil
  | cons b below rest =>
    if b = branch then cons b (f below) rest else cons b below (rest.update branch f)

/-- Add the branches of a second forest one after the other. -/
def merge (left : Forest) : Forest → Forest
  | nil => left
  | cons branch below rest => (left.update branch fun there => there.merge below).merge rest

def ofPath (path : List Branch) (last : Forest) : Forest :=
  path.foldr (fun branch below => cons branch below nil) last

/-- What hangs at the end of a path; nothing, if the path is not in the forest. -/
def below? : List Branch → Forest → Option Forest
  | [], forest => some forest
  | _ :: _, nil => none
  | branch :: path, cons b below rest =>
    if b = branch then below.below? path else rest.below? (branch :: path)

def size : Forest → Nat
  | nil => 0
  | cons _ below rest => below.size + rest.size + 1

def filterTop (p : Branch → Bool) : Forest → Forest
  | nil => nil
  | cons branch below rest =>
    if p branch then cons branch below (rest.filterTop p) else rest.filterTop p

end Forest
end EntityGraph
