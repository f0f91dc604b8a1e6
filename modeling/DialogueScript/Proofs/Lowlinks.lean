import DialogueScript.Proofs.CycleCover

namespace DialogueScript.Edges

variable {α : Type} [DecidableEq α] {edges : Edges α}

/-- The vertices that have been entered with their numbers, their low links, each with the value set last in
front, the vertices whose component is not known, those that are being visited, innermost first and each with
the number of its edges that have been followed, and the components that hold a cycle. -/
structure Lowlinks (α : Type) where
  index : List (α × Nat)
  lowlink : List (α × Nat)
  stack : List α
  onStack : List α
  frames : List (α × Nat)
  components : List (List α)

namespace Lowlinks

def start : Lowlinks α := ⟨[], [], [], [], [], []⟩

def entered (s : Lowlinks α) : List α := s.index.map Prod.fst

def indexOf (s : Lowlinks α) (v : α) : Nat := (s.index.lookup v).getD 0

def lowOf (s : Lowlinks α) (v : α) : Nat := (s.lowlink.lookup v).getD 0

def enter (s : Lowlinks α) (v : α) : Lowlinks α :=
  { s with
    index := (v, s.index.length) :: s.index
    lowlink := (v, s.index.length) :: s.lowlink
    stack := v :: s.stack
    onStack := v :: s.onStack
    frames := (v, 0) :: s.frames }

def lower (s : Lowlinks α) (v : α) (n : Nat) : Lowlinks α :=
  { s with lowlink := (v, min (s.lowOf v) n) :: s.lowlink }

def lowerTop (s : Lowlinks α) (n : Nat) : Lowlinks α :=
  match s.frames with
  | [] => s
  | (v, _) :: _ => s.lower v n

def close (edges : Edges α) (s : Lowlinks α) (v : α) : Lowlinks α :=
  let rest := s.stack.dropWhile (· ≠ v)
  let component := s.stack.takeWhile (· ≠ v) ++ rest.take 1
  { s with
    stack := rest.tail
    onStack := s.onStack.filter (· ∉ component)
    components := if edges.holdsCycle v component then s.components ++ [component] else s.components }

def leave (edges : Edges α) (s : Lowlinks α) (v : α) (frames : List (α × Nat)) : Lowlinks α :=
  let s' := ({ s with frames } : Lowlinks α).lowerTop (s.lowOf v)
  if s'.lowOf v = s'.indexOf v then close edges s' v else s'

/-- Follows one more edge of the innermost vertex, or leaves it. -/
def step (edges : Edges α) (s : Lowlinks α) : Option (Lowlinks α) :=
  match s.frames with
  | [] => none
  | (v, followed) :: frames =>
    match (edges.successors v)[followed]? with
    | none => some (leave edges s v frames)
    | some next =>
      let s' : Lowlinks α := { s with frames := (v, followed + 1) :: frames }
      if next ∉ s.entered then some (s'.enter next)
      else if next ∈ s.onStack then some (s'.lower v (s.indexOf next))
      else some s'

def unfinished (edges : Edges α) : List (α × Nat) → Nat
  | [] => 0
  | (v, followed) :: frames => 2 * ((edges.successors v).length - followed) + 1 + unfinished edges frames

/-- How many edges the search may still follow, and vertices it may still leave. -/
def remaining (edges : Edges α) (s : Lowlinks α) : Nat :=
  2 * (edges.outside s.entered).length + unfinished edges s.frames

section Step

variable {s s' : Lowlinks α} {u v next : α} {n followed : Nat} {frames : List (α × Nat)}

theorem indexOf_enter : (s.enter v).indexOf u = if u = v then s.index.length else s.indexOf u := by
  unfold indexOf enter
  dsimp only
  rw [List.lookup_cons]
  split <;> simp_all

theorem lowOf_enter : (s.enter v).lowOf u = if u = v then s.index.length else s.lowOf u := by
  unfold lowOf enter
  dsimp only
  rw [List.lookup_cons]
  split <;> simp_all

theorem lowOf_lower : (s.lower v n).lowOf u = if u = v then min (s.lowOf v) n else s.lowOf u := by
  unfold lowOf lower
  dsimp only
  rw [List.lookup_cons]
  split <;> simp_all [lowOf]

inductive Moves (edges : Edges α) (s : Lowlinks α) (v : α) (followed : Nat) (frames : List (α × Nat)) :
    Lowlinks α → Prop
  | enter {next : α} (hnext : (edges.successors v)[followed]? = some next) (hnew : next ∉ s.entered) :
    Moves edges s v followed frames (({ s with frames := (v, followed + 1) :: frames } : Lowlinks α).enter next)
  | lower {next : α} (hnext : (edges.successors v)[followed]? = some next) (hold : next ∈ s.entered)
      (hstack : next ∈ s.onStack) :
    Moves edges s v followed frames
      (({ s with frames := (v, followed + 1) :: frames } : Lowlinks α).lower v (s.indexOf next))
  | pass {next : α} (hnext : (edges.successors v)[followed]? = some next) (hold : next ∈ s.entered)
      (hstack : next ∉ s.onStack) :
    Moves edges s v followed frames { s with frames := (v, followed + 1) :: frames }
  | leave (hdone : (edges.successors v)[followed]? = none) :
    Moves edges s v followed frames (s.leave edges v frames)

theorem step_eq_some (h : s.step edges = some s') :
    ∃ v followed frames, s.frames = (v, followed) :: frames ∧ Moves edges s v followed frames s' := by
  unfold step at h
  split at h
  · cases h
  · rename_i v followed frames hframes
    refine ⟨v, followed, frames, hframes, ?_⟩
    split at h
    · rename_i hdone
      cases h
      exact .leave hdone
    · rename_i next hnext
      dsimp only at h
      split at h
      · rename_i hnew
        cases h
        exact .enter hnext hnew
      · rename_i hold
        rw [not_not] at hold
        split at h
        · rename_i hstack
          cases h
          exact .lower hnext hold hstack
        · rename_i hstack
          cases h
          exact .pass hnext hold hstack

theorem step_eq_none : s.step edges = none ↔ s.frames = [] := by
  unfold step
  split
  · rename_i hframes
    simp [hframes]
  · rename_i hframes
    rw [hframes]
    split
    · simp
    · dsimp only
      split
      · simp
      · split <;> simp

theorem lowerTop_eq (s : Lowlinks α) (n : Nat) : ∃ lowlink, s.lowerTop n = { s with lowlink } := by
  unfold lowerTop
  split
  · exact ⟨s.lowlink, rfl⟩
  · exact ⟨_, rfl⟩

theorem entered_lowerTop : (s.lowerTop n).entered = s.entered := by
  obtain ⟨lowlink, h⟩ := lowerTop_eq s n
  rw [h]
  rfl

theorem frames_lowerTop : (s.lowerTop n).frames = s.frames := by
  obtain ⟨lowlink, h⟩ := lowerTop_eq s n
  rw [h]

theorem entered_leave : (s.leave edges v frames).entered = s.entered := by
  unfold leave
  dsimp only
  split
  · exact entered_lowerTop
  · exact entered_lowerTop

theorem frames_leave : (s.leave edges v frames).frames = frames := by
  unfold leave
  dsimp only
  split
  · exact frames_lowerTop
  · exact frames_lowerTop

theorem remaining_step (h : s.step edges = some s') : s'.remaining edges < s.remaining edges := by
  obtain ⟨v, followed, frames, hframes, hmoves⟩ := step_eq_some h
  unfold remaining
  rw [hframes, unfinished]
  cases hmoves with
  | @enter next hnext hnew =>
    have hlt := (List.getElem?_eq_some_iff.1 hnext).1
    have hedges := outside_cons_length edges s.entered next hnew
    change 2 * (edges.outside (next :: s.entered)).length +
      unfinished edges ((next, 0) :: (v, followed + 1) :: frames) < _
    rw [unfinished, unfinished]
    omega
  | lower hnext hold hstack | pass hnext hold hstack =>
    have hlt := (List.getElem?_eq_some_iff.1 hnext).1
    change 2 * (edges.outside s.entered).length + unfinished edges ((v, followed + 1) :: frames) < _
    rw [unfinished]
    omega
  | leave hdone =>
    rw [entered_leave, frames_leave]
    omega

end Step

def run (edges : Edges α) (s : Lowlinks α) : Lowlinks α :=
  match _h : s.step edges with
  | none => s
  | some s' => run edges s'
termination_by s.remaining edges
decreasing_by exact remaining_step _h

def visit (edges : Edges α) (s : Lowlinks α) (root : α) : Lowlinks α :=
  if root ∈ s.entered then s else run edges (s.enter root)

end Lowlinks

/-- The components that the search by low links finds from the roots in turn. -/
def lowlinkComponents (edges : Edges α) (roots : List α) : List (List α) :=
  (roots.foldl (Lowlinks.visit edges) .start).components

end DialogueScript.Edges
