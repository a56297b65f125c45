import MiniC.Proofs.Symbol.Growth
import MiniC.Proofs.Visibility

/-!
# Analyses without an error

A state `IsClean` if no error was reported; then none was reported before either. Warnings do not
count. Without an error a declaration makes a symbol of its own (`Analyzer.declare_of_isClean`), and
a use of a name makes none (`Analyzer.symbols_identifier_of_isClean`).
-/

namespace MiniC

open SymbolTable

namespace Analyzer

variable {a b : Analyzer} {events : List Event} {event : Event} {name : String} {line : Nat}

/-- No error was reported. -/
def IsClean (a : Analyzer) : Prop := ∀ d ∈ a.diagnostics, d.isError = false

theorem IsClean.of_after (hb : b.IsClean) (h : a.after events = .ok b) : a.IsClean :=
  fun d hd => hb d ((diagnostics_prefix_of_after h).subset hd)

theorem IsClean.of_apply (hb : b.IsClean) (h : a.apply event = .ok b) : a.IsClean := by
  have hone : a.after [event] = .ok b := after_cons_of_ok h []
  exact hb.of_after hone

/-- Where every symbol has a type, a declaration without an error makes a new one. -/
theorem declare_of_isClean (hw : a.symbols.WellFormed)
    (ht : ∀ {id s}, a.symbols.get? id = some s → s.isTyped = true) {kind : SymbolKind}
    {type : DataType} (hc : (a.declare name kind type line).2.IsClean) :
    ∃ declared u, a.declare name kind type line = (declared, { a with symbols := u }) ∧
      a.symbols.Gains ⟨name, kind, some type, a.symbols.depth, line, none, true⟩ u ∧
      declared.id = a.symbols.symbols.size ∧ ∀ id, declared ≠ .redefinition id := by
  have hd := declare_declares hw name kind type none line
  unfold declare at hc ⊢
  generalize a.symbols.declare name kind type none line = r at hd hc ⊢
  cases hd with
  | redefinition =>
    have herror : (⟨line, .redefinition name⟩ : Diagnostic) ∈
        (a.report line (.redefinition name)).diagnostics :=
      List.mem_append_right _ List.mem_cons_self
    cases hc _ herror
  | typing hs _ _ _ hn => exact absurd (ht hs) (by simp [Symbol.isTyped, hn])
  | new hg hid hne =>
    refine ⟨_, _, ?_, hg, hid, hne⟩
    dsimp only
    split
    · exact (hne _ rfl).elim
    · rfl

/-- A use of a name without an error makes no symbol. -/
theorem symbols_identifier_of_isClean (hc : (a.identifier name line).IsClean) :
    (a.identifier name line).symbols = a.symbols := by
  rw [symbols_identifier]
  cases hl : a.symbols.lookup? name with
  | some id => rw [resolve_of_lookup? line hl]
  | none =>
    have herror : (⟨line, .undeclared name⟩ : Diagnostic) ∈
        (a.identifier name line).diagnostics := by
      rw [diagnostics_identifier_of_not_lookup? hl]
      exact List.mem_concat_self
    cases hc _ herror

end Analyzer

end MiniC
