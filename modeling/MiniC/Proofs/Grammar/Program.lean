import MiniC.Proofs.Grammar.Statement

/-!
# A program is read as its derivation

The text of a derivation in which every else branch belongs to the nearest conditional statement is
parsed without an error, and the events of the parse are those of the derivation
(`Program.parse_tokens`).
-/

namespace MiniC

open Goal (run_read run_read_nil run_replace run_replace_nil run_emit)

variable {goals : List Goal} {rest : List Token} {stop : Location}

theorem Items.run {items : Items} (h : items.ElseNearest) (closing : Location) :
    Goal.run (.items false :: goals)
        ⟨items.tokens ++ ⟨.punct .rightBrace, closing⟩ :: rest, stop⟩ =
      (Goal.run goals ⟨⟨.punct .rightBrace, closing⟩ :: rest, stop⟩).behind
        (items.events closing) := by
  cases items with
  | none => exact (run_replace rfl goals).trans (run_emit ..)
  | some code => exact (code.runs h).closed closing

theorem Definition.run (f : Definition) (h : f.body.ElseNearest) (typed : Bool) :
    Goal.run (.function typed :: goals) ⟨f.tokens ++ rest, stop⟩ =
      (Goal.run goals ⟨rest, stop⟩).behind (f.events typed) := by
  obtain ⟨name, loc, left, parameters, right, opening, body, closing⟩ := f
  simp only [tokens, List.append_assoc, List.cons_append, List.nil_append]
  calc
    _ = (Goal.run (.parameters :: .sign .rightParen "after parameters" none ::
          .sign .leftBrace "before function body" none :: .items false ::
          .sign .rightBrace "after function body" none ::
          .emit (.functionDefinition name typed) loc :: goals)
          ⟨parameters.tokens ++ ⟨.punct .rightParen, right⟩ :: ⟨.punct .leftBrace, opening⟩ ::
            (body.tokens ++ ⟨.punct .rightBrace, closing⟩ :: rest), stop⟩).behind
          [⟨.functionDeclarator name typed, loc⟩] := by
      refine (run_read rfl goals).trans ((run_emit ..).trans (congrArg _ ?_))
      exact run_read_nil rfl _
    _ = (Goal.run (.items false :: .sign .rightBrace "after function body" none ::
          .emit (.functionDefinition name typed) loc :: goals)
          ⟨body.tokens ++ ⟨.punct .rightBrace, closing⟩ :: rest, stop⟩).behind
          (⟨.functionDeclarator name typed, loc⟩ :: parameters.events) := by
      refine Run.behind_eq ((parameters.run right).trans (congrArg _ ?_)) _
      exact (run_read_nil rfl _).trans (run_read_nil rfl _)
    _ = (Goal.run (.emit (.functionDefinition name typed) loc :: goals) ⟨rest, stop⟩).behind
          (⟨.functionDeclarator name typed, loc⟩ :: parameters.events ++ body.events closing) := by
      refine Run.behind_eq ((Items.run h closing).trans (congrArg _ ?_)) _
      exact run_read_nil rfl _
    _ = _ := Run.behind_eq (run_emit ..) _

/-- Behind the name of the first variable stands no parenthesis. -/
theorem Declarators.startsFunction_eq_false (type : DataType) (loc : Location) (ds : Declarators)
    {p : Punct} (hp : p ≠ .leftParen) (place : Location) :
    Goal.startsFunction
      (⟨.type type, loc⟩ :: (ds.tokens ++ ⟨.punct p, place⟩ :: rest)) = false := by
  induction ds generalizing p place rest with
  | one d =>
    cases d with
    | plain name nameLoc => cases p <;> first | rfl | contradiction
    | initialized name nameLoc equal value => rfl
  | more ds comma d ih =>
    rw [tokens, List.append_assoc]
    exact ih (by decide) comma

theorem Declaration.action_external (d : Declaration) (rest : List Token) (stop : Location) :
    Goal.external.action ⟨d.tokens ++ rest, stop⟩ = .replace [.declaration] := by
  have hf : Goal.startsFunction (d.tokens ++ rest) = false := by
    simp only [tokens, List.append_assoc, List.cons_append, List.nil_append]
    exact d.declarators.startsFunction_eq_false d.type d.loc (by decide) d.semicolon
  exact if_neg (ne_true_of_eq_false hf)

theorem External.run (x : External) (h : x.ElseNearest) :
    Goal.run (.external :: goals) ⟨x.tokens ++ rest, stop⟩ =
      (Goal.run goals ⟨rest, stop⟩).behind x.events := by
  cases x with
  | function f => exact (run_replace rfl goals).trans (f.run h false)
  | typedFunction type loc f =>
    refine (run_read rfl goals).trans ((run_emit ..).trans ?_)
    exact Run.behind_eq (f.run h true) _
  | declaration d => exact (run_replace (d.action_external rest stop) goals).trans d.run

theorem External.exists_tokens_eq (x : External) : ∃ t ts, x.tokens = t :: ts := by
  cases x <;> exact ⟨_, _, rfl⟩

theorem External.action_externals (x : External) (joined : Bool) (rest : List Token)
    (stop : Location) : (Goal.externals joined).action ⟨x.tokens ++ rest, stop⟩ =
      .replace (.external :: Goal.joinedBy joined (placeOf x.tokens) ++ [.externals true]) := by
  obtain ⟨t, ts, hx⟩ := x.exists_tokens_eq
  rw [hx]
  rfl

theorem Externals.run : ∀ (xs : Externals) {rest : List Token}, xs.ElseNearest →
    Goal.run (.externals false :: goals) ⟨xs.tokens ++ rest, stop⟩ =
      (Goal.run (.externals true :: goals) ⟨rest, stop⟩).behind xs.events
  | one x, rest, h =>
    (run_replace (x.action_externals false rest stop) goals).trans (x.run h)
  | more xs x, rest, h => by
    simp only [tokens, List.append_assoc]
    calc
      _ = (Goal.run (.externals true :: goals) ⟨x.tokens ++ rest, stop⟩).behind xs.events :=
        xs.run h.1
      _ = (Goal.run (.emit .sequence (placeOf x.tokens) :: .externals true :: goals)
            ⟨rest, stop⟩).behind (xs.events ++ x.events) := by
        refine Run.behind_eq ((run_replace (x.action_externals true rest stop) goals).trans ?_) _
        exact x.run h.2
      _ = _ := Run.behind_eq (run_emit ..) _

/-- The text of a derivation is parsed to its events. -/
theorem Program.parse_tokens (p : Program) (h : p.ElseNearest) (stop : Location) :
    TokenList.parse ⟨p.tokens, stop⟩ = ⟨p.events, none⟩ := by
  cases p with
  | none => exact TokenList.parse_nil stop
  | some xs =>
    have hr : Goal.run [.externals false] ⟨xs.tokens ++ [], stop⟩ =
        (Goal.run [.externals true] ⟨[], stop⟩).behind xs.events := xs.run h
    have hend : Goal.run [.externals true] ⟨[], stop⟩ = ⟨[], .ok ⟨[], stop⟩⟩ :=
      (run_replace_nil rfl []).trans (Goal.run_nil _)
    rw [List.append_nil, hend, Run.behind, List.append_nil] at hr
    exact TokenList.parse_of_run_ok hr

end MiniC
