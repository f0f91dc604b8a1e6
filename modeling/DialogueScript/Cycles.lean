import DialogueScript.Digraph

namespace DialogueScript.Edges

variable {α : Type} [DecidableEq α]

/-- The vertices of the walk that reach `v` and are reached from it, the last entered first. -/
def classOf (edges : Edges α) (walk : Walk α) (v : α) : List α :=
  let after := edges.reachableFrom v
  let before := edges.reversed.reachableFrom v
  walk.entered.filter fun u => u ∈ after ∧ u ∈ before

def holdsCycle (edges : Edges α) (v : α) (members : List α) : Bool :=
  1 < members.length ∨ (v, v) ∈ edges

/-- The classes of mutually reachable vertices that hold a cycle, for the vertices that can be
reached from a root. A search leaves a class with the vertex by which it entered it, and the classes
are in the order in which they are left, so each comes after those that it leads to. -/
def cyclicComponents (edges : Edges α) (roots : List α) : List (List α) :=
  let walk := edges.walk roots
  walk.left.reverse.filterMap fun v =>
    let members := edges.classOf walk v
    if members.getLast? = some v ∧ edges.holdsCycle v members then some members else none

/-- Goes on with a breadth-first search for the way back to `v`. An entry to look at is a vertex
and the way by which it was found, backwards to `v`. -/
def searchBack (edges : Edges α) (v : α) (within seen : List α) (todo : List (α × List α)) :
    Option (List α) :=
  match todo with
  | [] => none
  | (current, way) :: rest =>
    if _h : current ∈ seen then searchBack edges v within seen rest
    else if v ∈ edges.successors current then some (v :: current :: way)
    else
      let found := (edges.successors current).filter (· ∈ within)
      searchBack edges v within (current :: seen) (rest ++ found.map fun next => (next, current :: way))
termination_by (edges.outside seen).length + todo.length
decreasing_by
  · simp
  · have := outside_cons_length edges seen current ‹_›
    have := List.length_filter_le (fun x => decide (x ∈ within)) (edges.successors current)
    simp
    omega

/-- A shortest cycle through `v`, from `v` to `v`, whose other vertices are all in `within`. -/
def cycleThrough (edges : Edges α) (v : α) (within : List α) : Option (List α) :=
  (edges.searchBack v within [] [(v, [])]).map List.reverse

/-- The place of the last listing of `v`, and for an unknown vertex a place after all others. -/
def rank (roots : List α) (v : α) : Nat :=
  if v ∈ roots then roots.length - 1 - roots.reverse.idxOf v else roots.length

def sortedBy {β : Type} (key : β → Nat) (items : List β) : List β :=
  items.mergeSort fun a b => key a ≤ key b

/-- Turns a closed path round so that it begins, and ends, with a vertex of least rank. -/
def turned (roots : List α) (cycle : List α) : List α :=
  let once := cycle.dropLast
  let least := (once.map (rank roots)).min?.getD 0
  let start := once.findIdx (rank roots · = least)
  let turn := once.drop start ++ once.take start
  turn ++ turn.head?.toList

/-- A cycle through each of the vertices that is not on an earlier cycle. -/
def cover (edges : Edges α) (roots within covered : List α) : List α → List (List α)
  | [] => []
  | v :: rest =>
    if v ∈ covered then cover edges roots within covered rest
    else
      match edges.cycleThrough v within with
      | none => cover edges roots within covered rest
      | some cycle => turned roots cycle :: cover edges roots within (covered ++ cycle) rest

/-- Cycles that together cover every vertex on a cycle that can be reached from a root. Each begins
and ends with its vertex that is listed earliest among the roots, and they are found in this order. -/
def findCycles (edges : Edges α) (roots : List α) : List (List α) :=
  let components := (edges.cyclicComponents roots).map (sortedBy (rank roots))
  let headRank := fun (component : List α) => (component.head?.map (rank roots)).getD 0
  (sortedBy headRank components).flatMap fun component =>
    edges.cover roots component [] component

end DialogueScript.Edges
