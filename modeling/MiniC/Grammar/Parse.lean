import MiniC.Grammar.Goal
import MiniC.Token.Lexer

/-!
# From a text to its events

`Goal.run goals ts` meets the goals of a stack one after the other in front of the tokens `ts`. It
ends because every action either reads a token or makes the stack lighter. `parse` is the run of a
whole program. Events before an error are kept.
-/

namespace MiniC

/-- The events of a run, and the tokens behind it or the error that ended it. -/
structure Run where
  events : List Event
  result : Except SyntaxError TokenList

/-- Meets the goals, the first one first, in front of the tokens `ts`. -/
def Goal.run (goals : List Goal) (ts : TokenList) : Run :=
  match goals with
  | [] => ⟨[], .ok ts⟩
  | goal :: goals =>
    match _h : goal.action ts with
    | .emit event =>
      let r := Goal.run goals ts
      ⟨event :: r.events, r.result⟩
    | .replace new => Goal.run (new ++ goals) ts
    | .read new rest => Goal.run (new ++ goals) ⟨rest, ts.stop⟩
    | .fail what => ⟨[], .error ⟨.unexpected what (ts.tokens.head?.map Token.kind), ts.place⟩⟩
termination_by (ts.tokens.length, Goal.stackWeight goals)
decreasing_by
  · exact .right _ (by simp [Goal.eq_emit _h, Goal.stackWeight, Goal.reads, Goal.weight])
  · exact .right _ (Goal.stackWeight_replace goals _h)
  · exact .left _ _ (Goal.length_read _h)

/-- The events of a token list, read as a program. -/
def TokenList.parse (ts : TokenList) : EventStream :=
  let r := Goal.run [.externals false] ts
  ⟨r.events, match r.result with | .ok _ => none | .error e => some e⟩

/-- The events of a source text. A text that is no sequence of tokens has none. -/
def parse (source : String) : EventStream :=
  match tokenize source with
  | .ok ts => ts.parse
  | .error e => ⟨[], some ⟨.lexical e.fault, e.location⟩⟩

end MiniC
