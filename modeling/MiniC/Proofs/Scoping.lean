import Mathlib.Data.List.Basic
import MiniC.Event

/-!
# Scopes of an event stream

Scopes are read off the events alone. `scopeDepth` counts the scopes that are open inside the global
one behind a list of events. An event belongs to the scope that is current before it, and that scope
is open as long as the count does not fall below what it was then (`StaysOpen`).

`StillOpen P events depth` says that an event with property `P` came in the scope with number
`depth`, and that this scope is open behind the events. `Visible events name` is static scoping : a
declaration of the name came in a scope that is still open.
-/

namespace MiniC

namespace Rule

/-- The name that a rule declares in the current scope. -/
def declares : Rule → Option String
  | functionDeclarator name _ | parameter name _ | declTarget name | declarator name => some name
  | _ => none

/-- The number of open scopes behind a rule. The global scope stays open. -/
def depthBehind : Rule → Nat → Nat
  | openScope, depth | functionDeclarator _ _, depth => depth + 1
  | closeScope, depth | functionDefinition _ _, depth => depth - 1
  | _, depth => depth

/-- A rule that declares a name closes no scope. -/
theorem le_depthBehind {r : Rule} {name : String} (h : r.declares = some name) (depth : Nat) :
    depth ≤ r.depthBehind depth := by
  cases r
  case functionDeclarator => exact Nat.le_succ depth
  case parameter | declTarget | declarator => exact Nat.le_refl depth
  all_goals cases h

end Rule

/-- The number of scopes that are open inside the global one behind the events. -/
def scopeDepth (events : List Event) : Nat :=
  events.foldl (fun depth event => event.rule.depthBehind depth) 0

/-- The scope that is current behind `before` is open behind `before ++ mid`, and all the time
between. -/
def StaysOpen (before mid : List Event) : Prop :=
  ∀ p, p <+: mid → scopeDepth before ≤ scopeDepth (before ++ p)

/-- An event with `P`, which is told the events before it, came in the scope with number `depth`,
and that scope is open behind the events. -/
def StillOpen (P : List Event → Event → Prop) (events : List Event) (depth : Nat) : Prop :=
  ∃ before event mid, events = before ++ event :: mid ∧ P before event ∧
    scopeDepth before = depth ∧ StaysOpen before (event :: mid)

/-- The event declares the name. -/
def Declares (name : String) (_ : List Event) (event : Event) : Prop :=
  event.rule.declares = some name

/-- A declaration of the name came in a scope that is still open. -/
def Visible (events : List Event) (name : String) : Prop :=
  ∃ depth, StillOpen (Declares name) events depth

variable {P : List Event → Event → Prop} {events before mid : List Event} {event : Event}
  {depth : Nat}

theorem scopeDepth_snoc (events : List Event) (event : Event) :
    scopeDepth (events ++ [event]) = event.rule.depthBehind (scopeDepth events) := by
  simp [scopeDepth]

theorem StaysOpen.le (h : StaysOpen before mid) : scopeDepth before ≤ scopeDepth (before ++ mid) :=
  h mid List.prefix_rfl

theorem staysOpen_nil (before : List Event) : StaysOpen before [] := by
  intro p hp
  obtain rfl := List.prefix_nil.1 hp
  exact Nat.le_of_eq (congrArg scopeDepth (List.append_nil before).symm)

theorem staysOpen_snoc : StaysOpen before (mid ++ [event]) ↔
    StaysOpen before mid ∧ scopeDepth before ≤ scopeDepth (before ++ (mid ++ [event])) := by
  unfold StaysOpen
  simp only [List.prefix_concat_iff]
  constructor
  · exact fun h => ⟨fun p hp => h p (.inr hp), h _ (.inl rfl)⟩
  · rintro ⟨h, hlast⟩ p (rfl | hp)
    · exact hlast
    · exact h p hp

/-- An event of a longer list is the last one, or one of the list. -/
theorem eq_or_mem_of_snoc {e : Event} (h : events ++ [event] = before ++ e :: mid) :
    (before = events ∧ e = event ∧ mid = []) ∨
      ∃ rest, mid = rest ++ [event] ∧ events = before ++ e :: rest := by
  rcases List.eq_nil_or_concat' mid with rfl | ⟨rest, last, rfl⟩
  · obtain ⟨hb, he⟩ := List.append_inj' h rfl
    exact .inl ⟨hb.symm, (List.singleton_inj.1 he).symm, rfl⟩
  · rw [← List.cons_append, ← List.append_assoc] at h
    obtain ⟨hb, he⟩ := List.append_inj' h rfl
    obtain rfl := List.singleton_inj.1 he
    exact .inr ⟨rest, rfl, hb⟩

theorem not_stillOpen_nil : ¬StillOpen P [] depth := by
  rintro ⟨before, event, mid, h, -⟩
  simp at h

/-- The last event is the one, or one before it is and the last event did not close its scope. -/
theorem stillOpen_snoc : StillOpen P (events ++ [event]) depth ↔
    (P events event ∧ depth = scopeDepth events ∨ StillOpen P events depth) ∧
      depth ≤ scopeDepth (events ++ [event]) := by
  constructor
  · rintro ⟨before, e, mid, he, hP, rfl, ho⟩
    have hle : scopeDepth before ≤ scopeDepth (events ++ [event]) := he ▸ ho.le
    refine ⟨?_, hle⟩
    rcases eq_or_mem_of_snoc he with ⟨rfl, rfl, rfl⟩ | ⟨rest, rfl, rfl⟩
    · exact .inl ⟨hP, rfl⟩
    · exact .inr ⟨before, e, rest, rfl, hP, rfl, (staysOpen_snoc.1 ho).1⟩
  · rintro ⟨⟨hP, rfl⟩ | ⟨before, e, mid, rfl, hP, rfl, ho⟩, hle⟩
    · refine ⟨events, event, [], rfl, hP, rfl, ?_⟩
      have ho : StaysOpen events ([] ++ [event]) := staysOpen_snoc.2 ⟨staysOpen_nil events, hle⟩
      exact ho
    · refine ⟨before, e, mid ++ [event], by simp, hP, rfl, ?_⟩
      rw [← List.cons_append]
      refine staysOpen_snoc.2 ⟨ho, ?_⟩
      simpa using hle

end MiniC
