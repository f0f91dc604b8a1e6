namespace DialogueScript

/-- Edges from a first to a second vertex. An edge may be listed more than once. -/
abbrev Edges (α : Type) := List (α × α)

namespace Edges

variable {α : Type} [DecidableEq α]

def successors (edges : Edges α) (v : α) : List α :=
  edges.filterMap fun e => if e.1 = v then some e.2 else none

def reversed (edges : Edges α) : Edges α := edges.map Prod.swap

/-- The edges that a search has not followed when it has seen the given vertices. -/
def outside (edges : Edges α) (seen : List α) : Edges α := edges.filter fun e => e.1 ∉ seen

theorem outside_cons_length (edges : Edges α) (seen : List α) (v : α) (h : v ∉ seen) :
    (edges.outside (v :: seen)).length + (edges.successors v).length = (edges.outside seen).length := by
  induction edges with
  | nil => rfl
  | cons e rest ih =>
    unfold outside successors at ih ⊢
    by_cases hv : e.1 = v
    · subst hv
      simp_all
      omega
    · by_cases hs : e.1 ∈ seen
      · simp_all
      · simp_all
        omega

/-- Goes on from a breadth-first search that has seen some vertices and still has some to look at. -/
def search (edges : Edges α) (seen todo : List α) : List α :=
  match todo with
  | [] => seen
  | v :: rest =>
    if _h : v ∈ seen then search edges seen rest
    else search edges (v :: seen) (rest ++ edges.successors v)
termination_by (edges.outside seen).length + todo.length
decreasing_by
  · simp
  · have := outside_cons_length edges seen v ‹_›
    simp
    omega

def reachableFrom (edges : Edges α) (root : α) : List α := edges.search [] [root]

/-- What a depth-first search still has to do. -/
inductive Task (α : Type) where
  | enter (v : α)
  | leave (v : α)

def Task.weight : Task α → Nat
  | enter _ => 2
  | leave _ => 1

def Task.weights : List (Task α) → Nat
  | [] => 0
  | task :: rest => task.weight + weights rest

/-- The vertices that a depth-first search has entered and left, the latest in front. -/
structure Walk (α : Type) where
  entered : List α
  left : List α

omit [DecidableEq α] in
theorem weights_append (a b : List (Task α)) :
    Task.weights (a ++ b) = Task.weights a + Task.weights b := by
  induction a with
  | nil => simp only [List.nil_append, Task.weights, Nat.zero_add]
  | cons task a ih => simp only [List.cons_append, Task.weights, ih, Nat.add_assoc]

omit [DecidableEq α] in
theorem weights_enter (vs : List α) : Task.weights (vs.map Task.enter) = 2 * vs.length := by
  induction vs with
  | nil => rfl
  | cons v vs ih =>
    simp only [List.map_cons, Task.weights, ih, Task.weight, List.length_cons]
    omega

/-- Goes on with a depth-first search. A vertex that has been entered is not entered again. -/
def walkOn (edges : Edges α) (walk : Walk α) (tasks : List (Task α)) : Walk α :=
  match tasks with
  | [] => walk
  | .leave v :: rest => walkOn edges { walk with left := v :: walk.left } rest
  | .enter v :: rest =>
    if _h : v ∈ walk.entered then walkOn edges walk rest
    else
      walkOn edges { walk with entered := v :: walk.entered }
        ((edges.successors v).map .enter ++ .leave v :: rest)
termination_by 2 * (edges.outside walk.entered).length + Task.weights tasks
decreasing_by
  · simp [Task.weights, Task.weight]
  · simp [Task.weights, Task.weight]
  · have := outside_cons_length edges walk.entered v ‹_›
    simp only [weights_append, weights_enter, Task.weights, Task.weight]
    omega

def walk (edges : Edges α) (roots : List α) : Walk α := edges.walkOn ⟨[], []⟩ (roots.map .enter)

end Edges

end DialogueScript
