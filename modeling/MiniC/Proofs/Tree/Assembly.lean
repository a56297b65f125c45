import Mathlib
import MiniC.Proofs.Reading

/-!
# Assembling trees

A `TreeStack.Call` puts a leaf on a stack of trees, or a node over the latest ones.
`TreeStack.perform` does so in place : the operands of a node are taken off before the node is put
back, and an error leaves the stack as it was at that moment. A call is rejected if and only if the
stack has too few trees, and then nothing has been changed (`TreeStack.perform_eq`).

Calls and trees are inverse to each other. The calls of a tree in postorder are all accepted and put
this tree on the stack (`TreeStack.performs_calls`), and whatever calls are made, the labels of those
that are accepted are what the trees on the stack have in postorder (`TreeStack.labels_attemptAll`).
-/

namespace MiniC

namespace TreeStack

/-! ## Calls -/

/-- A call that puts a tree on the stack. -/
inductive Call where
  | leaf (label : String)
  | node (label : String) (arity : Nat)
deriving DecidableEq

namespace Call

/-- The label of the tree. -/
def label : Call → String
  | leaf label | node label _ => label

/-- The number of trees that the call combines. -/
def arity : Call → Nat
  | leaf _ => 0
  | node _ arity => arity

/-- The call that finishes a node with this mark, once its children are finished. -/
def ofMark : Mark → Call
  | (label, 0) => leaf label
  | (label, arity + 1) => node label (arity + 1)

theorem label_ofMark (mark : Mark) : (ofMark mark).label = mark.1 := by
  obtain ⟨label, arity⟩ := mark
  cases arity <;> rfl

theorem arity_ofMark (mark : Mark) : (ofMark mark).arity = mark.2 := by
  obtain ⟨label, arity⟩ := mark
  cases arity <;> rfl

end Call

/-- Work on a stack of trees that can be cut short by an error. -/
abbrev InPlace (α : Type) := EStateM StackError TreeStack α

/-- Takes the `count` latest trees off, for the construct `label`, in the order in which they were
pushed. -/
def takeMany (label : String) (count : Nat) : InPlace (List Tree) := do
  let s ← get
  if s.depth < count then throw (.underflow label count s.depth)
  set (TreeStack.mk (s.trees.drop count))
  return (s.trees.take count).reverse

/-- Makes a call. -/
def perform : Call → InPlace Unit
  | .leaf label => modify (·.leaf label)
  | .node label arity => do
    let children ← takeMany label arity
    modify (·.push (.ofChildren label children))

/-- The stack behind a call, which may have been rejected. -/
def attempt (s : TreeStack) (call : Call) : TreeStack :=
  match perform call s with
  | .ok _ u => u
  | .error _ u => u

/-- The stack behind a list of calls, any of which may have been rejected. -/
def attemptAll (s : TreeStack) (calls : List Call) : TreeStack := calls.foldl attempt s

/-- The calls that are not rejected when they are made one after the other. -/
def accepted (s : TreeStack) : List Call → List Call
  | [] => []
  | call :: calls =>
    match perform call s with
    | .ok _ u => call :: u.accepted calls
    | .error _ u => u.accepted calls

/-- The labels of the trees in postorder, from the bottom of the stack to its top. -/
def labels (s : TreeStack) : List String := s.trees.reverse.flatMap Tree.postorder

variable {s u v : TreeStack} {call : Call} {calls more : List Call}

/-! ## One call -/

/-- The stack with the `arity` latest trees below a new node. -/
def combined (s : TreeStack) (label : String) (arity : Nat) : TreeStack :=
  ⟨.ofChildren label (s.trees.take arity).reverse :: s.trees.drop arity⟩

/-- A call that finds too few trees is rejected, and the stack stays as it is. -/
theorem perform_eq (s : TreeStack) (call : Call) : perform call s =
    if s.depth < call.arity then .error (.underflow call.label call.arity s.depth) s
    else .ok ⟨⟩ (s.combined call.label call.arity) := by
  cases call with
  | leaf label =>
    rw [Call.arity, if_neg (Nat.not_lt_zero _)]
    rfl
  | node label arity =>
    rw [Call.arity]
    by_cases h : s.depth < arity
    · simp only [perform, takeMany, bind, EStateM.bind, get, getThe, MonadStateOf.get, EStateM.get,
        if_pos h]
      rfl
    · simp only [perform, takeMany, bind, EStateM.bind, get, getThe, MonadStateOf.get, EStateM.get,
        if_neg h]
      rfl

/-- A node is made in place as it is made otherwise. -/
theorem perform_node (s : TreeStack) (label : String) (arity : Nat) :
    perform (.node label arity) s =
      match s.node label arity with
      | .ok u => .ok ⟨⟩ u
      | .error e => .error e s := by
  rw [perform_eq, node, popMany, depth, Call.arity]
  split <;> rfl

theorem attempt_of_le (h : call.arity ≤ s.depth) :
    s.attempt call = s.combined call.label call.arity := by
  rw [attempt, perform_eq, if_neg (Nat.not_lt.2 h)]

theorem attempt_of_lt (h : s.depth < call.arity) : s.attempt call = s := by
  rw [attempt, perform_eq, if_pos h]

theorem accepted_of_le (h : call.arity ≤ s.depth) (calls : List Call) :
    s.accepted (call :: calls) = call :: (s.attempt call).accepted calls := by
  rw [attempt_of_le h, accepted, perform_eq, if_neg (Nat.not_lt.2 h)]

theorem accepted_of_lt (h : s.depth < call.arity) (calls : List Call) :
    s.accepted (call :: calls) = s.accepted calls := by
  rw [accepted, perform_eq, if_pos h]

/-! ## The calls of a tree -/

/-- All calls are accepted, and lead from one stack to the other. -/
def Performs (s : TreeStack) (calls : List Call) (u : TreeStack) : Prop :=
  s.accepted calls = calls ∧ s.attemptAll calls = u

theorem performs_nil (s : TreeStack) : s.Performs [] s := ⟨rfl, rfl⟩

theorem performs_singleton (h : call.arity ≤ s.depth) :
    s.Performs [call] (s.combined call.label call.arity) :=
  ⟨accepted_of_le h [], attempt_of_le h⟩

theorem accepted_append (s : TreeStack) (calls more : List Call) :
    s.accepted (calls ++ more) = s.accepted calls ++ (s.attemptAll calls).accepted more := by
  induction calls generalizing s with
  | nil => rfl
  | cons call calls ih =>
    have hall : s.attemptAll (call :: calls) = (s.attempt call).attemptAll calls := rfl
    rw [List.cons_append, hall]
    rcases Nat.lt_or_ge s.depth call.arity with h | h
    · rw [accepted_of_lt h, accepted_of_lt h, ih, attempt_of_lt h]
    · rw [accepted_of_le h, accepted_of_le h, ih, List.cons_append]

theorem Performs.append (h : s.Performs calls u) (h' : u.Performs more v) :
    s.Performs (calls ++ more) v := by
  obtain ⟨hc, rfl⟩ := h
  obtain ⟨hm, rfl⟩ := h'
  exact ⟨by rw [accepted_append, hc, hm], List.foldl_append⟩

end TreeStack

open TreeStack

namespace Tree

variable {t : Tree}

/-- The calls that build the tree, one for each node, in postorder. -/
def calls (t : Tree) : List Call := t.marks.map .ofMark

end Tree

namespace TreeStack

variable {s : TreeStack} {call : Call} {calls : List Call} {t : Tree}

/-- The stack with more trees on it, the last of them on top. -/
def pushAll (s : TreeStack) (ts : List Tree) : TreeStack := ⟨ts.reverse ++ s.trees⟩

theorem pushAll_append (s : TreeStack) (ts us : List Tree) :
    (s.pushAll ts).pushAll us = s.pushAll (ts ++ us) := by
  simp [pushAll]

theorem combined_pushAll (s : TreeStack) (label : String) (ts : List Tree) :
    (s.pushAll ts).combined label ts.length = s.push (.ofChildren label ts) := by
  simp [combined, pushAll, push]

/-- The calls of a tree are accepted, and put it on the stack with level zero everywhere. -/
theorem performs_calls (hp : t.Packed) (s : TreeStack) : s.Performs t.calls (s.pushAll t.filled) := by
  induction t generalizing s with
  | empty => exact performs_nil s
  | node label level a b c d iha ihb ihc ihd =>
    obtain ⟨-, -, -, ha, hb, hc, hd⟩ := id hp
    let children := (Tree.node label level a b c d).children.map Tree.unnumbered
    have hslots := (((iha ha s).append (ihb hb _)).append (ihc hc _)).append (ihd hd _)
    have hall : (((s.pushAll a.filled).pushAll b.filled).pushAll c.filled).pushAll d.filled =
        s.pushAll children := by
      simp only [children, pushAll_append, Tree.map_unnumbered_children, List.append_assoc]
    -- the last call combines the children, which are all on the stack by now
    let mark : Mark := (label, (Tree.node label level a b c d).children.length)
    have harity : (Call.ofMark mark).arity = children.length := by
      rw [Call.arity_ofMark, List.length_map]
    have hlast := @performs_singleton (s.pushAll children) (.ofMark mark) <| by
      rw [harity, depth, pushAll]
      simp
    rw [Call.label_ofMark, harity, combined_pushAll, Tree.ofChildren_children hp] at hlast
    rw [hall] at hslots
    rw [Tree.filled_eq rfl]
    simpa [Tree.calls, Tree.marks, mark, pushAll, push] using hslots.append hlast

/-! ## Any calls -/

theorem postorder_ofChildren (label : String) {ts : List Tree} (h : ts.length ≤ 4) :
    (Tree.ofChildren label ts).postorder = ts.flatMap Tree.postorder ++ [label] := by
  rw [← Tree.flatMap_slots_ofChildren label h rfl]
  simp [Tree.ofChildren, Tree.postorder, Tree.slots]

/-- A node loses none of the trees that it combines. -/
theorem labels_combined (label : String) {arity : Nat} (h : arity ≤ 4) :
    (s.combined label arity).labels = s.labels ++ [label] := by
  have hchildren : (s.trees.take arity).reverse.length ≤ 4 := by
    rw [List.length_reverse, List.length_take]
    exact Nat.le_trans (Nat.min_le_left _ _) h
  have hsplit : s.trees.reverse =
      (s.trees.drop arity).reverse ++ (s.trees.take arity).reverse := by
    rw [← List.reverse_append, List.take_append_drop]
  rw [labels, labels, combined, List.reverse_cons, List.flatMap_append, List.flatMap_singleton,
    postorder_ofChildren label hchildren, hsplit, List.flatMap_append, List.append_assoc]

/-- The labels of the accepted calls stand behind those that were on the stack. -/
theorem labels_attemptAll (h : ∀ call ∈ calls, call.arity ≤ 4) (s : TreeStack) :
    (s.attemptAll calls).labels = s.labels ++ (s.accepted calls).map Call.label := by
  induction calls generalizing s with
  | nil => exact (List.append_nil _).symm
  | cons call calls ih =>
    obtain ⟨hcall, hcalls⟩ := List.forall_mem_cons.1 h
    have hall : s.attemptAll (call :: calls) = (s.attempt call).attemptAll calls := rfl
    rw [hall, ih hcalls]
    rcases Nat.lt_or_ge s.depth call.arity with hlt | hle
    · rw [accepted_of_lt hlt, attempt_of_lt hlt]
    · rw [accepted_of_le hle, attempt_of_le hle, labels_combined _ hcall]
      simp

/-- The calls of a tree with its children in the first slots everywhere are all accepted, on any
stack, and put this tree on top of it, with level zero at every node. After any calls with at most
four operands each, the labels on the stack in postorder are those of the accepted calls, behind the
labels that were there before. A call that is rejected leaves the stack as it was. -/
theorem assembly_inverts_postorder (s : TreeStack) :
    (∀ t : Tree, t.Finished → s.accepted t.calls = t.calls ∧
      s.attemptAll t.calls = s.push t.unnumbered) ∧
    (∀ calls : List Call, (∀ call ∈ calls, call.arity ≤ 4) →
      (s.attemptAll calls).labels = s.labels ++ (s.accepted calls).map Call.label) ∧
    ∀ label arity, perform (.node label arity) s =
      match s.node label arity with
      | .ok u => .ok ⟨⟩ u
      | .error e => .error e s := by
  refine ⟨fun t ht => ?_, fun calls h => labels_attemptAll h s, perform_node s⟩
  have h := performs_calls ht.2 s
  rw [Tree.filled_eq ht.1] at h
  exact h

/-- A loop is put on a leaf, and behind a sum that is rejected the leaf is assigned to another. -/
theorem assembly_of_loop : ∃ (t : Tree) (calls : List Call), t.Finished ∧ t.level = 1 ∧
    (∀ call ∈ calls, call.arity ≤ 4) ∧
    (TreeStack.mk [.leaf "x"]).attemptAll t.calls = ⟨[t.unnumbered, .leaf "x"]⟩ ∧
    (TreeStack.mk [.leaf "x"]).accepted calls = [.leaf "y", .node "=" 2] ∧
    ((TreeStack.mk [.leaf "x"]).attemptAll calls).labels = ["x", "y", "="] := by
  let t := Tree.node "for" 1 (.leaf ";") (.node "<" 2 (.leaf "i") (.leaf "n") .empty .empty)
    (.node "++" 2 (.leaf "i") .empty .empty .empty) (.leaf "\x7b\x7d")
  let calls : List Call := [.node "+" 2, .leaf "y", .node "=" 2, .node "if" 3]
  have ht : t.Finished := by
    simp [t, Tree.Finished, Tree.Packed, Tree.isEmpty, Tree.leaf]
  have hcalls : ∀ call ∈ calls, call.arity ≤ 4 := by decide
  have hacc : (TreeStack.mk [.leaf "x"]).accepted calls = [.leaf "y", .node "=" 2] := by cbv
  obtain ⟨htree, hlabels, -⟩ := assembly_inverts_postorder ⟨[.leaf "x"]⟩
  refine ⟨t, calls, ht, rfl, hcalls, (htree t ht).2, hacc, ?_⟩
  rw [hlabels calls hcalls, hacc]
  cbv

end TreeStack

end MiniC
