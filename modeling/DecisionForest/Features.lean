import DecisionForest.Error

/-!
# Feature lists

A row is the list of its features. Scoring looks features up by bisection, so it wants the list in
ascending order.

- `Features.ascending` sorts a list and drops repetitions,
- `Features.isAscending` and `Features.check` decide strict order, the latter naming the first place
  that breaks it,
- `Features.contains` looks a feature up; on an ascending list it decides membership.
-/

namespace DecisionForest
namespace Features

/-! ## Order -/

/-- Drop each element equal to the one before it. -/
def dropRepeats : List FeatureId → List FeatureId
  | a :: b :: rest => if a = b then dropRepeats (b :: rest) else a :: dropRepeats (b :: rest)
  | fs => fs

def ascending (fs : List FeatureId) : List FeatureId :=
  dropRepeats (fs.mergeSort fun a b => decide (a ≤ b))

def isAscending : List FeatureId → Bool
  | a :: b :: rest => decide (a < b) && isAscending (b :: rest)
  | _ => true

/-- The first place where a feature is not below the next one, counting from `position`. -/
def descent? (position : Nat) : List FeatureId → Option FeaturesFault
  | a :: b :: rest =>
    if b ≤ a then some (.notAscending position a b) else descent? (position + 1) (b :: rest)
  | _ => none

def check (fs : List FeatureId) : Except Error Unit :=
  match descent? 0 fs with
  | some fault => .error (.features fault)
  | none => .ok ()

/-! ## Membership -/

/-- Bisection of the positions from `low` up to `high`. -/
def search (fs : Array FeatureId) (f : FeatureId) (low high : Nat) : Bool :=
  if low < high then
    let middle := (low + high) / 2
    match fs[middle]? with
    | none => false
    | some g =>
      if g = f then true
      else if g < f then search fs f (middle + 1) high
      else search fs f low middle
  else false
termination_by high - low

def contains (fs : Array FeatureId) (f : FeatureId) : Bool :=
  search fs f 0 fs.size

end Features
end DecisionForest
