import MiniC.Proofs.Grammar.Braces
import MiniC.Proofs.Outcome
import MiniC.Proofs.Report.Declarations
import MiniC.Proofs.Token.Order
import MiniC.Proofs.Visibility

/-!
# Scopes follow braces

In front of every event of a source without a syntax error the symbol table is as deep as the braces
of the text say, and in the end every scope but the global one is closed (`scopes_follow_braces`).

The events of the source are those of a derivation, which follow its braces (`Program.follows`), and
the table is as deep as the events say (`Analyzer.Tracks`). `SymbolTable.GlobalValid` is kept by
every operation : only the symbols of an inner scope are ever made invalid.
-/

namespace MiniC

/-! ## Symbols of the global scope -/

namespace SymbolTable

/-- The symbols of the global scope are valid. -/
def GlobalValid (t : SymbolTable) : Prop :=
  ∀ id s, t.get? id = some s → s.scope = 0 → s.valid = true

namespace GlobalValid

variable {t : SymbolTable}

theorem empty : GlobalValid .empty := each_empty _

theorem insert (h : t.GlobalValid) (name : String) (kind : SymbolKind) (type : Option DataType)
    (value : Option Value) (line : Nat) : (t.insert name kind type value line).GlobalValid :=
  Each.updates h (fun _ => rfl) fun _ => get?_insert ..

theorem modify (h : t.GlobalValid) {f : Symbol → Symbol} (hf : Keeps f) (id : SymbolId) :
    (t.modify id f).GlobalValid := by
  refine Each.modify h (fun s hs hz => ?_) id
  obtain ⟨-, hscope, hvalid⟩ := hf s
  exact hvalid.trans (hs (hscope.symm.trans hz))

/-- Only an inner scope makes its symbols invalid when it closes. -/
theorem closeScope (h : t.GlobalValid) (hw : t.WellFormed) : t.closeScope.GlobalValid :=
  Each.closeScope h hw fun _ hinner _ hz => absurd hz (Nat.ne_of_gt hinner)

theorem resolve (h : t.GlobalValid) (name : String) (line : Nat) :
    (t.resolve name line).2.GlobalValid := by
  unfold SymbolTable.resolve
  split
  · exact h
  · exact h.insert _ _ _ _ _

theorem declare (h : t.GlobalValid) (name : String) (kind : SymbolKind) (type : DataType)
    (value : Option Value) (line : Nat) : (t.declare name kind type value line).2.GlobalValid := by
  have hr := h.resolve name line
  unfold SymbolTable.declare
  dsimp only
  split
  · exact hr.insert _ _ _ _ _
  split
  · exact hr
  · exact hr.modify (keeps_declaring kind type value line) _

end GlobalValid

end SymbolTable

open SymbolTable

namespace Analyzer

variable {a b : Analyzer} {events : List Event}

theorem Touches.globalValid {line : Nat} {r : Rule} {u : SymbolTable} (ht : Touches a line r u)
    (hw : a.symbols.WellFormed) (h : a.symbols.GlobalValid) : u.GlobalValid := by
  cases ht with
  | openScope | idle => exact h
  | closeScope | functionDefinition => exact h.closeScope hw
  | functionDeclarator | parameter | declTarget | declarator => exact h.declare _ _ _ _ _
  | identifier => exact h.resolve _ _
  | assign op ho hi value | initDeclarator name hp value =>
    exact h.modify (keeps_assigned value) _

theorem globalValid_of_after (h : start.after events = .ok a) : a.symbols.GlobalValid := by
  induction events using List.reverseRecOn generalizing a with
  | nil =>
    obtain rfl := Except.ok.inj h
    exact .empty
  | append_singleton events event ih =>
    obtain ⟨b, hb, hlast⟩ := exists_of_after_snoc h
    exact (apply_touches hlast).globalValid (tracks_of_after hb).wellFormed (ih hb)

/-- Where no inner scope is open, the symbols of the global scope are the valid ones. -/
theorem valid_iff_of_depth_eq_zero (h : start.after events = .ok a) (hd : a.symbols.depth = 0)
    {id : SymbolId} {s : Symbol} (hs : a.symbols.get? id = some s) :
    s.valid = true ↔ s.scope = 0 := by
  constructor
  · intro hv
    have hle := (tracks_of_after h).wellFormed.scope_le ⟨s, hs, hv, rfl, rfl⟩
    rw [hd] at hle
    exact Nat.le_zero.1 hle
  · exact globalValid_of_after h id s hs

end Analyzer

/-! ## Sources -/

/-- A source without a syntax error has tokens that its events follow. -/
theorem exists_follows {source : String} (hf : (parse source).failure = none) :
    ∃ ts, tokenize source = .ok ts ∧ Follows 0 ts.tokens (parse source).events := by
  unfold parse at hf ⊢
  split at hf
  · next ts ht =>
    obtain ⟨p, hp⟩ := TokenList.exists_program hf
    refine ⟨ts, ht, ?_⟩
    rw [Program.events_nearest hp, ← hp, ← p.tokens_nearest]
    exact p.nearest.follows
  · cases hf

/-- In front of every event of a source without a syntax error that names a variable, the table is
as deep as braces are open in front of that name, which is the only token at its place. At a
parameter the table is one deep, and deeper than the global scope where a scope closes. Behind the
last event all inner scopes are closed, and the symbols of the global scope are the valid ones. -/
theorem scopes_follow_braces {source : String} (hf : (parse source).failure = none) :
    ∃ ts last, tokenize source = .ok ts ∧
      (∀ before event later, (parse source).events = before ++ event :: later →
        ∃ a, Analyzer.start.after before = .ok a ∧
          (∀ name, event.rule.mentions = some name →
            ∃ front back, ts.tokens = front ++ ⟨.name name, event.location⟩ :: back ∧
              (∀ t ∈ front ++ back, t.location ≠ event.location) ∧
              (a.symbols.depth : Int) = braces front) ∧
          (∀ name type, event.rule = .parameter name type → a.symbols.depth = 1) ∧
          (event.rule.closes = true → 0 < a.symbols.depth)) ∧
      Analyzer.start.after (parse source).events = .ok last ∧ last.symbols.depth = 0 ∧
      ∀ id s, last.symbols.get? id = some s → (s.valid = true ↔ s.scope = 0) := by
  obtain ⟨ts, ht, hfollows⟩ := exists_follows hf
  obtain ⟨last, hlast⟩ := exists_after_parse source
  have hdepth : last.symbols.depth = 0 :=
    (Analyzer.tracks_of_after hlast).depth.trans hfollows.level
  refine ⟨ts, last, ht, fun before event later he => ?_, hlast, hdepth, fun id s hs =>
    Analyzer.valid_iff_of_depth_eq_zero hlast hdepth hs⟩
  obtain ⟨a, -, ha, -⟩ := exists_apply_of_parse he
  have hplaced : Placed 0 ts.tokens event a.symbols.depth := by
    have hall := hfollows.placed
    rw [he, atDepths_append] at hall
    rw [(Analyzer.tracks_of_after ha).depth]
    exact hall.2.1
  refine ⟨a, ha, fun name hn => ?_, hplaced.parameter, hplaced.close⟩
  obtain ⟨front, back, htokens, hbraces⟩ := hplaced.mention name hn
  refine ⟨front, back, htokens, (tokenize_ordered ht).location_ne htokens, ?_⟩
  rw [hbraces]
  exact Int.zero_add _

/-- The use of the parameter stands behind one block and inside two others, which are inside a
function. -/
theorem scopes_follow_braces_of_blocks :
    ∃ ts before later a front back,
      (parse "f(int n)\x7b\x7b\x7d\x7b\x7bn;\x7d\x7d\x7d").failure = none ∧
      tokenize "f(int n)\x7b\x7b\x7d\x7b\x7bn;\x7d\x7d\x7d" = .ok ts ∧
      (parse "f(int n)\x7b\x7b\x7d\x7b\x7bn;\x7d\x7d\x7d").events =
        before ++ ⟨.identifier "n", ⟨1, 14⟩⟩ :: later ∧
      ts.tokens = front ++ ⟨.name "n", ⟨1, 14⟩⟩ :: back ∧
      Analyzer.start.after before = .ok a ∧ a.symbols.depth = 3 ∧ braces front = 3 := by
  have hf : (parse "f(int n)\x7b\x7b\x7d\x7b\x7bn;\x7d\x7d\x7d").failure = none := by cbv
  have he : (parse "f(int n)\x7b\x7b\x7d\x7b\x7bn;\x7d\x7d\x7d").events =
      [⟨.functionDeclarator "f" false, ⟨1, 1⟩⟩, ⟨.parameter "n" .int, ⟨1, 7⟩⟩,
        ⟨.openScope, ⟨1, 10⟩⟩, ⟨.emptyBlock, ⟨1, 11⟩⟩, ⟨.closeScope, ⟨1, 11⟩⟩,
        ⟨.openScope, ⟨1, 12⟩⟩, ⟨.openScope, ⟨1, 13⟩⟩] ++ ⟨.identifier "n", ⟨1, 14⟩⟩ ::
      [⟨.closeScope, ⟨1, 16⟩⟩, ⟨.closeScope, ⟨1, 17⟩⟩, ⟨.sequence, ⟨1, 12⟩⟩,
        ⟨.functionDefinition "f" false, ⟨1, 1⟩⟩] := by cbv
  obtain ⟨ts, last, ht, hevents, -⟩ := scopes_follow_braces hf
  obtain ⟨a, ha, hname, -⟩ := hevents _ _ _ he
  obtain ⟨front, back, htokens, -, hbraces⟩ := hname "n" rfl
  have hdepth : a.symbols.depth = 3 := (Analyzer.tracks_of_after ha).depth
  exact ⟨ts, _, _, a, front, back, hf, ht, he, htokens, ha, hdepth, by rw [← hbraces, hdepth]; rfl⟩

end MiniC
