import ArgdownLens.Tree.Node

/-!
# The node under the cursor

From a forest, the nodes around a place are found by going down: on each level the nodes that touch
the line compete, the one that starts closest in front of the place wins, and the search goes on
among its children. Indentation tokens never take part.
-/

namespace ArgdownLens

/-- How far behind the start of the node a column lies, if it does not lie in front of it. -/
def columnDistance? (n : Node) (character : Nat) : Option Nat :=
  if n.span.startColumn ≤ character then some (character - n.span.startColumn) else none

/-- The node with the greater start column; `a` if they are equal. -/
def laterColumn (a b : Node) : Node :=
  if a.span.startColumn < b.span.startColumn then b else a

/-- The closer of two nodes that touch the line. A later start line is closer. Of two nodes that
start on the line, the one a shorter way in front of the column is closer, and a node behind the
column is not. All else equal, the greater start column is closer, and then `a`. -/
def closer (line character : Nat) (a b : Node) : Node :=
  if a.span.startLine < b.span.startLine then b
  else if b.span.startLine < a.span.startLine then a
  else if a.span.startLine = line then
    match columnDistance? a character, columnDistance? b character with
    | some x, some y => if y < x then b else if x < y then a else laterColumn a b
    | some _, none => a
    | none, some _ => b
    | none, none => laterColumn a b
  else laterColumn a b

/-- Whether a node takes part in the search on a line. -/
def isCandidate (line : Nat) (n : Node) : Bool :=
  !n.isStructural && n.span.containsLine line

/-- The closest of some nodes, from left to right. -/
def closestOf? (line character : Nat) : List Node → Option Node
  | [] => none
  | n :: ns => some (ns.foldl (closer line character) n)

/-- The closest of the nodes that take part. -/
def closest? (nodes : List Node) (line character : Nat) : Option Node :=
  closestOf? line character (nodes.filter (isCandidate line))

/-- The closer of two nodes is one of them. -/
theorem closer_eq_or (line character : Nat) (a b : Node) :
    closer line character a b = a ∨ closer line character a b = b := by
  unfold closer laterColumn
  repeat' split
  all_goals simp

/-- The winner of a competition took part in it. -/
theorem foldl_closer_mem (line character : Nat) (ns : List Node) (n : Node) :
    ns.foldl (closer line character) n ∈ n :: ns := by
  induction ns generalizing n with
  | nil => simp
  | cons m ms ih =>
    rw [List.foldl_cons]
    have h := ih (closer line character n m)
    rw [List.mem_cons] at h
    rcases closer_eq_or line character n m with he | he
    · rw [he] at h ⊢
      rcases h with h | h
      · rw [h]; simp
      · exact List.mem_cons_of_mem _ (List.mem_cons_of_mem _ h)
    · rw [he] at h ⊢
      rcases h with h | h
      · rw [h]; simp
      · exact List.mem_cons_of_mem _ (List.mem_cons_of_mem _ h)

/-- The closest node is one of the nodes given. -/
theorem mem_of_closest? {nodes : List Node} {line character : Nat} {n : Node}
    (h : closest? nodes line character = some n) : n ∈ nodes := by
  unfold closest? at h
  have hsub : ∀ m ∈ nodes.filter (isCandidate line), m ∈ nodes :=
    fun m hm => (List.mem_filter.mp hm).1
  generalize nodes.filter (isCandidate line) = candidates at h hsub
  cases candidates with
  | nil => simp [closestOf?] at h
  | cons m ms =>
    simp only [closestOf?, Option.some.injEq] at h
    exact hsub n (h ▸ foldl_closer_mem line character ms m)

/-- The chain of nodes around a place given in the engine's coordinates, the outermost first. -/
def locate (nodes : List Node) (line character : Nat) : List Node :=
  match h : closest? nodes line character with
  | none => []
  | some winner =>
    have : winner ∈ nodes := mem_of_closest? h
    winner :: locate winner.children line character
termination_by sizeOf nodes
decreasing_by
  have hwinner := List.sizeOf_lt_of_mem this
  have hchildren : sizeOf winner.children < sizeOf winner := by
    cases winner
    simp only [Node.mk.sizeOf_spec]
    omega
  omega

end ArgdownLens
