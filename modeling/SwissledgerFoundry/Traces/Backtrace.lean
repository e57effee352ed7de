import Mathlib.Data.List.Induction

/-!
# The frames of a backtrace

The deepest failed call of the whole arena is taken, wherever it is, and its
callers are followed up to the root.
-/

namespace SwissledgerFoundry.Traces

open List

/-- A call, with what `create_frame` reads of its trace. -/
structure CallTraceNode (Data : Type) where
  parent : Option ℕ
  success : Bool
  depth : ℕ
  data : Data

/-- A call is recorded after its caller, and only the root has none. -/
structure CallTraceArena (Data : Type) where
  nodes : List (CallTraceNode Data)
  callers : ∀ entry ∈ nodes.zipIdx,
    (entry.1.parent = none → entry.2 = 0) ∧ ∀ parent ∈ entry.1.parent, parent < entry.2

variable {Data Frame : Type}

/-- One round of the search, on the current index and the largest depth. -/
def deeper (current : Option ℕ × ℕ) (entry : CallTraceNode Data × ℕ) : Option ℕ × ℕ :=
  if !entry.1.success && decide (current.2 ≤ entry.1.depth) then (some entry.2, entry.1.depth)
  else current

/-- The calls that the second loop visits. -/
def walk (nodes : List (CallTraceNode Data)) : ℕ → Option ℕ → List (CallTraceNode Data)
  | fuel + 1, some idx =>
    match nodes[idx]? with
    | some node => node :: walk nodes fuel node.parent
    | none => []
  | _, _ => []

/-- The calls that get a frame. -/
def framedCalls (arena : CallTraceArena Data) : List (CallTraceNode Data) :=
  let current := (arena.nodes.zipIdx.foldl deeper (none, 0)).1
  walk arena.nodes arena.nodes.length current

def extractFrames (createFrame : Data → Option Frame) (arena : CallTraceArena Data) : List Frame :=
  (framedCalls arena).filterMap (createFrame ·.data)

/-- The calls from one up to the root. -/
inductive Path (nodes : List (CallTraceNode Data)) : ℕ → List (CallTraceNode Data) → Prop
  | root {node : CallTraceNode Data} (found : nodes[0]? = some node) : Path nodes 0 [node]
  | call {idx parent : ℕ} {node : CallTraceNode Data} {callers : List (CallTraceNode Data)}
      (found : nodes[idx]? = some node) (called : node.parent = some parent)
      (path : Path nodes parent callers) : Path nodes idx (node :: callers)

/-- Of the failed calls at the largest depth, the one recorded last. -/
structure LastDeepest (nodes : List (CallTraceNode Data)) (idx : ℕ) (node : CallTraceNode Data) :
    Prop where
  found : nodes[idx]? = some node
  failed : node.success = false
  last : ∀ {other : ℕ} {call : CallTraceNode Data}, nodes[other]? = some call →
    call.success = false → call.depth < node.depth ∨ call.depth = node.depth ∧ other ≤ idx

theorem LastDeepest.unique {nodes : List (CallTraceNode Data)} {idx other : ℕ}
    {node call : CallTraceNode Data} (deepest : LastDeepest nodes idx node)
    (also : LastDeepest nodes other call) : idx = other := by
  have forth := deepest.last also.found also.failed
  have back := also.last deepest.found deepest.failed
  omega

theorem foldl_deeper (nodes : List (CallTraceNode Data)) :
    nodes.zipIdx.foldl deeper (none, 0) = (none, 0) ∧ (∀ node ∈ nodes, node.success = true) ∨
      ∃ idx node, nodes.zipIdx.foldl deeper (none, 0) = (some idx, node.depth) ∧
        LastDeepest nodes idx node := by
  induction nodes using reverseRecOn with
  | nil => exact .inl ⟨rfl, forall_mem_nil _⟩
  | append_singleton nodes next ih =>
    have inside : ∀ {other : ℕ} {call : CallTraceNode Data},
        (nodes ++ [next])[other]? = some call →
        nodes[other]? = some call ∨ other = nodes.length ∧ call = next := by
      intro other call found
      rw [getElem?_append, getElem?_singleton] at found
      split_ifs at found with before after
      · exact .inl found
      · exact .inr ⟨by omega, (Option.some.inj found).symm⟩
    rw [zipIdx_append, foldl_append, Nat.zero_add, zipIdx_singleton, foldl_cons, foldl_nil, deeper]
    split
    · rename_i taken
      simp only [Bool.and_eq_true, Bool.not_eq_true', decide_eq_true_eq] at taken
      refine .inr ⟨nodes.length, next, rfl, by simp, taken.1, ?_⟩
      intro other call found fails
      rcases inside found with earlier | ⟨rfl, rfl⟩
      · rcases ih with ⟨_, succeeded⟩ | ⟨idx, node, current, deepest⟩
        · cases fails.symm.trans (succeeded call (mem_of_getElem? earlier))
        · have deep := deepest.last earlier fails
          have less := (List.getElem?_eq_some_iff.mp earlier).1
          rw [current] at taken
          simp only at taken
          omega
      · exact .inr ⟨rfl, Nat.le_refl _⟩
    rename_i kept
    rcases ih with ⟨start, earlier⟩ | ⟨idx, node, current, deepest⟩
    · refine .inl ⟨start, forall_mem_append.mpr ⟨earlier, ?_⟩⟩
      simpa [start] using kept
    · refine .inr ⟨idx, node, current, ?_, deepest.failed, ?_⟩
      · rw [getElem?_append_left (List.getElem?_eq_some_iff.mp deepest.found).1]
        exact deepest.found
      intro other call found fails
      rcases inside found with earlier | ⟨rfl, rfl⟩
      · exact deepest.last earlier fails
      · rw [current] at kept
        simp only [fails, Bool.not_false, Bool.true_and, decide_eq_true_eq] at kept
        omega

theorem walk_path {idx fuel : ℕ} (arena : CallTraceArena Data) {node : CallTraceNode Data}
    (found : arena.nodes[idx]? = some node) (enough : idx < fuel) :
    Path arena.nodes idx (walk arena.nodes fuel (some idx)) := by
  induction fuel generalizing idx node with
  | zero => omega
  | succ fuel ih =>
    obtain ⟨root, earlier⟩ := arena.callers (node, idx) (mem_zipIdx_iff_getElem?.mpr found)
    simp only [walk, found]
    cases called : node.parent with
    | none =>
      obtain rfl := root called
      rw [walk]
      · exact .root found
      nofun
    | some parent =>
      have less := earlier parent called
      have held := getElem?_eq_getElem (Nat.lt_trans less (List.getElem?_eq_some_iff.mp found).1)
      exact .call found called (ih held (by omega))

theorem Path.unique {idx : ℕ} {arena : CallTraceArena Data} {path other : List (CallTraceNode Data)}
    (left : Path arena.nodes idx path) (right : Path arena.nodes idx other) : path = other := by
  have noCaller : ∀ {node : CallTraceNode Data} {parent : ℕ}, arena.nodes[0]? = some node →
      node.parent ≠ some parent := by
    intro node parent found called
    exact Nat.not_lt_zero parent
      ((arena.callers (node, 0) (mem_zipIdx_iff_getElem?.mpr found)).2 parent called)
  induction left generalizing other with
  | root found =>
    cases right with
    | root again => rw [Option.some.inj (found.symm.trans again)]
    | call again called path => exact absurd called (noCaller again)
  | call found called path ih =>
    cases right with
    | root again => exact absurd called (noCaller found)
    | call again also rest =>
      obtain rfl := Option.some.inj (found.symm.trans again)
      obtain rfl := Option.some.inj (called.symm.trans also)
      rw [ih rest]

/-- If the root failed, the frames are those of failed calls, from one of them
up to the root, exactly if all callers of the last deepest failure failed. -/
theorem extractFrames_failed_iff (createFrame : Data → Option Frame) (arena : CallTraceArena Data)
    (failed : ∃ root ∈ arena.nodes[0]?, root.success = false) :
    (∃ idx path, Path arena.nodes idx path ∧ (∀ call ∈ path, call.success = false) ∧
        framedCalls arena = path ∧
        extractFrames createFrame arena = path.filterMap (createFrame ·.data)) ↔
      ∀ idx node path, LastDeepest arena.nodes idx node → Path arena.nodes idx path →
        ∀ call ∈ path, call.success = false := by
  rcases foldl_deeper arena.nodes with ⟨_, succeeded⟩ | ⟨chosen, first, current, deepest⟩
  · obtain ⟨root, found, fails⟩ := failed
    cases fails.symm.trans (succeeded root (mem_of_getElem? found))
  have framed : Path arena.nodes chosen (framedCalls arena) := by
    rw [framedCalls, current]
    exact walk_path arena deepest.found (List.getElem?_eq_some_iff.mp deepest.found).1
  constructor
  · rintro ⟨_, _, -, fails, rfl, -⟩ idx node path also reached
    obtain rfl := also.unique deepest
    rw [reached.unique framed]
    exact fails
  · intro fails
    exact ⟨chosen, _, framed, fails chosen first _ deepest framed, rfl, rfl⟩

/-- The root, a call that fails in it, and one that succeeds. -/
def uncaughtArena : CallTraceArena Unit where
  nodes := [⟨none, false, 0, ()⟩, ⟨some 0, false, 1, ()⟩, ⟨some 0, true, 1, ()⟩]
  callers := by decide

theorem extractFrames_failed_iff_uncaught : uncaughtArena.nodes.map (·.success) =
      [false, false, true] ∧
    ((∃ idx path, Path uncaughtArena.nodes idx path ∧ (∀ call ∈ path, call.success = false) ∧
        framedCalls uncaughtArena = path ∧
        extractFrames some uncaughtArena = path.filterMap (some ·.data)) ↔
      ∀ idx node path, LastDeepest uncaughtArena.nodes idx node →
        Path uncaughtArena.nodes idx path → ∀ call ∈ path, call.success = false) :=
  ⟨rfl, extractFrames_failed_iff some uncaughtArena ⟨_, rfl, rfl⟩⟩

/-- The root fails after a call that succeeded, which had caught a failure. -/
def caughtArena : CallTraceArena ℕ where
  nodes := [⟨none, false, 0, 0⟩, ⟨some 0, true, 1, 1⟩, ⟨some 1, false, 2, 2⟩]
  callers := by decide

theorem extractFrames_caught : caughtArena.nodes.map (·.success) = [false, true, false] ∧
      extractFrames some caughtArena = [2, 1, 0] := ⟨rfl, rfl⟩

end SwissledgerFoundry.Traces
