import SwissledgerFoundry.Collections.Transition

/-!
# Greedy scans

A list of needs is served in order by a stream of items.  An item that the
current need accepts is given to it, and a need that has all its items is left
for the next one.
-/

namespace GreedyScan

variable {Need : Type} {Item : Type*}

/-- The needs from the current one on, the number of items the current need
still wants and the items it has been given. -/
structure Progress (Need : Type) (Item : Type*) where
  waiting : List Need
  remaining : ℕ
  taken : List Item

variable (demand : Need → ℕ) (accepts : Need → Item → Bool)

/-- The scan in front of a list of needs. -/
def begin (needs : List Need) : Progress Need Item where
  waiting := needs
  remaining := (needs.head?.map demand).getD 0
  taken := []

def step (progress : Progress Need Item) (item : Item) : Progress Need Item :=
  match progress.waiting with
  | [] => progress
  | need :: rest =>
    if accepts need item then
      if progress.remaining ≤ 1 then begin demand rest
      else
        { progress with remaining := progress.remaining - 1, taken := progress.taken ++ [item] }
    else progress

variable (needs : List Need) (items : List Item)

def scan : Progress Need Item :=
  Transition.run (step demand accepts) (begin demand needs) items

/-- Every need has been served. -/
def succeeds : Bool :=
  (scan demand accepts needs items).waiting.isEmpty

end GreedyScan
