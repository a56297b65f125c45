import MiniC.Analysis

/-!
# The state behind a list of events

`Analyzer.after` applies the events of a list in order. What is proved of a stream of events is
proved of one event, and carried along the list from its front (`Analyzer.exists_of_after_cons`) or
from its end (`Analyzer.exists_of_after_snoc`). `Analyzer.run_of_after` reads the analysis of a
stream off the last state.
-/

namespace MiniC

/-- Two steps that succeed one after the other both do. -/
theorem exists_of_bind_ok {ε α β : Type} {x : Except ε α} {f : α → Except ε β} {b : β}
    (h : x.bind f = .ok b) : ∃ a, x = .ok a ∧ f a = .ok b := by
  cases x with
  | error e => cases h
  | ok a => exact ⟨a, rfl, h⟩

namespace Analyzer

/-- The state after the events, applied in order. -/
def after (a : Analyzer) (events : List Event) : Except StackError Analyzer :=
  events.foldlM apply a

variable {a b z : Analyzer} {event : Event} {events more : List Event}

theorem after_cons_of_ok (h : a.apply event = .ok b) (events : List Event) :
    a.after (event :: events) = b.after events := by
  have hc : a.after (event :: events) = (a.apply event).bind (·.after events) := rfl
  rw [hc, h]
  rfl

theorem after_append (a : Analyzer) (events more : List Event) :
    a.after (events ++ more) = (a.after events).bind (·.after more) := List.foldlM_append

theorem after_append_of_ok (h : a.after events = .ok b) (more : List Event) :
    a.after (events ++ more) = b.after more := by
  rw [after_append, h]
  rfl

theorem after_snoc_of_ok (h : a.after events = .ok b) (hz : b.apply event = .ok z) :
    a.after (events ++ [event]) = .ok z := by
  rw [after_append_of_ok h, after_cons_of_ok hz]
  rfl

theorem exists_of_after_cons (h : a.after (event :: events) = .ok z) :
    ∃ b, a.apply event = .ok b ∧ b.after events = .ok z :=
  exists_of_bind_ok h

theorem exists_of_after_append (h : a.after (events ++ more) = .ok z) :
    ∃ b, a.after events = .ok b ∧ b.after more = .ok z :=
  exists_of_bind_ok (after_append a events more ▸ h)

theorem exists_of_after_snoc (h : a.after (events ++ [event]) = .ok z) :
    ∃ b, a.after events = .ok b ∧ b.apply event = .ok z := by
  obtain ⟨b, hb, hlast⟩ := exists_of_after_append h
  obtain ⟨c, hc, hnil⟩ := exists_of_after_cons hlast
  obtain rfl := Except.ok.inj hnil
  exact ⟨b, hb, hc⟩

/-- The analysis of a stream whose events can all be applied. -/
theorem run_of_after (h : a.after events = .ok b) (failure : Option SyntaxError) :
    a.run events failure = b.run [] failure := by
  induction events generalizing a with
  | nil =>
    obtain rfl := Except.ok.inj h
    rfl
  | cons event events ih =>
    obtain ⟨c, hc, hb⟩ := exists_of_after_cons h
    rw [run, hc]
    exact ih hb

end Analyzer

end MiniC
