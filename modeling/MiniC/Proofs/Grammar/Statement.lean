import MiniC.Proofs.Grammar.Expression

/-!
# A statement is read as its derivation

What `MiniC.Proofs.Grammar.Expression` says of expressions, of declarations, parameters and
statements : in front of the text of a derivation its goals are met, and tell its events. Of a
statement this needs that every else branch belongs to the nearest conditional statement, and that
no else stands behind it when it ends in a conditional statement without one (`Code.Runs`).
`Code.runs` is the induction.
-/

namespace MiniC

open Goal (run_read run_read_nil run_replace run_replace_nil run_emit)

variable {goals : List Goal} {rest : List Token} {stop : Location}

/-! ## Declarations -/

theorem Declarator.run (d : Declarator) (h : 8 ≤ looseness rest) :
    Goal.run (.declarator :: goals) ⟨d.tokens ++ rest, stop⟩ =
      (Goal.run goals ⟨rest, stop⟩).behind d.events := by
  cases d with
  | plain name loc =>
    have hr : (Goal.initializer name loc).action ⟨rest, stop⟩ =
        .replace [.emit (.declarator name) loc] := by
      simp only [Goal.action]
      split
      · exact absurd h (by simp [looseness, Punct.looseness])
      · rfl
    exact (run_read rfl goals).trans ((run_replace hr goals).trans (run_emit ..))
  | initialized name loc equal value =>
    calc
      _ = (Goal.run (.assignment :: .emit (.initDeclarator name) loc :: goals)
            ⟨value.tokens ++ rest, stop⟩).behind [⟨.declTarget name, loc⟩] :=
        (run_read rfl goals).trans ((run_read rfl goals).trans (run_emit ..))
      _ = (Goal.run (.emit (.initDeclarator name) loc :: goals) ⟨rest, stop⟩).behind
            (⟨.declTarget name, loc⟩ :: value.events) := Run.behind_eq (value.runs.closed h) _
      _ = _ := Run.behind_eq (run_emit ..) _

theorem Declarators.run : ∀ (ds : Declarators) {rest : List Token}, 8 ≤ looseness rest →
    Goal.run (.declarator :: .moreDeclarators :: goals) ⟨ds.tokens ++ rest, stop⟩ =
      (Goal.run (.moreDeclarators :: goals) ⟨rest, stop⟩).behind ds.events
  | one d, rest, h => d.run h
  | more ds comma d, rest, h => by
    have hcomma : 8 ≤ looseness (⟨.punct .comma, comma⟩ :: (d.tokens ++ rest)) := Nat.le_refl 8
    simp only [tokens, List.append_assoc, List.cons_append]
    calc
      _ = (Goal.run (.moreDeclarators :: goals) ⟨⟨.punct .comma, comma⟩ :: (d.tokens ++ rest),
            stop⟩).behind ds.events := ds.run hcomma
      _ = (Goal.run (.emit .comma comma :: .moreDeclarators :: goals) ⟨rest, stop⟩).behind
            (ds.events ++ d.events) := Run.behind_eq ((run_read rfl goals).trans (d.run h)) _
      _ = _ := Run.behind_eq (run_emit ..) _

theorem Declaration.run (d : Declaration) :
    Goal.run (.declaration :: goals) ⟨d.tokens ++ rest, stop⟩ =
      (Goal.run goals ⟨rest, stop⟩).behind d.events := by
  have hsemicolon : 8 ≤ looseness (⟨.punct .semicolon, d.semicolon⟩ :: rest) := Nat.le_succ 8
  simp only [tokens, List.append_assoc, List.cons_append, List.nil_append]
  calc
    _ = (Goal.run (.declarator :: .moreDeclarators ::
          .sign .semicolon "after declaration" (some .declaration) :: goals)
          ⟨d.declarators.tokens ++ ⟨.punct .semicolon, d.semicolon⟩ :: rest, stop⟩).behind
          [⟨.typeSpecifier d.type, d.loc⟩] := (run_read rfl goals).trans (run_emit ..)
    _ = (Goal.run (.moreDeclarators :: .sign .semicolon "after declaration" (some .declaration) ::
          goals) ⟨⟨.punct .semicolon, d.semicolon⟩ :: rest, stop⟩).behind
          (⟨.typeSpecifier d.type, d.loc⟩ :: d.declarators.events) :=
      Run.behind_eq (d.declarators.run hsemicolon) _
    _ = _ := by
      refine Run.behind_eq ((run_replace rfl _).trans ?_) _
      exact (run_read rfl goals).trans (run_emit ..)

/-! ## Parameters -/

theorem Parameter.run (p : Parameter) (h : ∀ name loc more, rest ≠ ⟨.name name, loc⟩ :: more) :
    Goal.run (.parameter :: goals) ⟨p.tokens ++ rest, stop⟩ =
      (Goal.run (.moreParameters :: goals) ⟨rest, stop⟩).behind p.events := by
  obtain ⟨type, loc, _ | ⟨name, nameLoc⟩⟩ := p
  · have hr : (Goal.parameterName type).action ⟨rest, stop⟩ = .replace [.moreParameters] := by
      simp only [Goal.action]
    exact (run_read rfl goals).trans (run_replace hr goals)
  · exact (run_read rfl goals).trans ((run_read rfl goals).trans (run_emit ..))

/-- The parenthesis behind the parameters ends them. -/
theorem ParameterList.run (right : Location) : ∀ ps : ParameterList,
    Goal.run (.parameter :: goals) ⟨ps.tokens ++ ⟨.punct .rightParen, right⟩ :: rest, stop⟩ =
      (Goal.run goals ⟨⟨.punct .rightParen, right⟩ :: rest, stop⟩).behind ps.events
  | one p => (p.run (by simp)).trans (congrArg _ (run_replace_nil rfl goals))
  | more p comma ps => by
    simp only [tokens, List.append_assoc, List.cons_append]
    refine (p.run (by simp)).trans (Run.behind_eq ?_ _)
    exact (run_read rfl goals).trans (ParameterList.run right ps)

theorem Parameters.run (right : Location) (ps : Parameters) :
    Goal.run (.parameters :: goals) ⟨ps.tokens ++ ⟨.punct .rightParen, right⟩ :: rest, stop⟩ =
      (Goal.run goals ⟨⟨.punct .rightParen, right⟩ :: rest, stop⟩).behind ps.events := by
  cases ps with
  | empty => exact run_replace_nil rfl goals
  | void loc =>
    refine (run_replace rfl goals).trans ((run_read rfl goals).trans ?_)
    exact (run_replace rfl goals).trans (run_replace_nil rfl goals)
  | list ps =>
    have hr : Goal.parameters.action ⟨ps.tokens ++ ⟨.punct .rightParen, right⟩ :: rest, stop⟩ =
        .replace [.parameter] := by cases ps <;> rfl
    exact (run_replace hr goals).trans (ps.run right)

/-! ## Statements -/

theorem Simple.run (s : Simple) :
    Goal.run (.simple :: goals) ⟨s.tokens ++ rest, stop⟩ =
      (Goal.run goals ⟨rest, stop⟩).behind s.events := by
  cases s with
  | empty semicolon => exact (run_read rfl goals).trans (run_emit ..)
  | expression e semicolon =>
    have hsemicolon : 9 ≤ looseness (⟨.punct .semicolon, semicolon⟩ :: rest) := Nat.le_refl 9
    simp only [tokens, List.append_assoc, List.cons_append, List.nil_append]
    refine (run_replace (e.starts.append _).action_simple goals).trans ?_
    refine (e.runs.expression hsemicolon).trans (congrArg _ ?_)
    exact run_read_nil rfl goals

/-- The clauses of a loop are read in front of the closing parenthesis. -/
theorem Clauses.run (c : Clauses) (close : Location) :
    Goal.run (.simple :: .simple :: .increment :: goals)
        ⟨c.tokens ++ ⟨.punct .rightParen, close⟩ :: rest, stop⟩ =
      (Goal.run goals ⟨⟨.punct .rightParen, close⟩ :: rest, stop⟩).behind (c.events close) := by
  obtain ⟨init, condition, step⟩ := c
  have hclose : 9 ≤ looseness (⟨.punct .rightParen, close⟩ :: rest) := Nat.le_refl 9
  have hstep : Goal.run (.increment :: goals)
      ⟨tokensOf? step ++ ⟨.punct .rightParen, close⟩ :: rest, stop⟩ =
      (Goal.run goals ⟨⟨.punct .rightParen, close⟩ :: rest, stop⟩).behind
        (step.elim [⟨.emptyStatement, close⟩] Term.events) := by
    cases step with
    | none => exact (run_replace rfl goals).trans (run_emit ..)
    | some e =>
      refine (run_replace (e.starts.append _).action_increment goals).trans ?_
      exact e.runs.expression hclose
  simp only [tokens, List.append_assoc]
  refine init.run.trans ?_
  rw [condition.run, hstep, Run.behind_behind, Run.behind_behind]
  rfl

/-- No else branch follows. -/
def NoElse (rest : List Token) : Prop := ∀ loc more, rest ≠ ⟨.keyword .elseKw, loc⟩ :: more

theorem NoElse.of_starts (h : Starts Token.Kind.startsItem rest) : NoElse rest := by
  rintro loc more rfl
  obtain ⟨t, rest, ht, hs⟩ := h
  obtain ⟨rfl, -⟩ := List.cons.inj ht
  cases hs

/-- The goals that code of the part meets. -/
def Part.before : Part → List Goal
  | statement => [.statement]
  | item => [.item]
  | items => [.items false]

/-- The goals that are left behind it : more items can follow. -/
def Part.after : Part → List Goal
  | items => [.items true]
  | statement | item => []

namespace Code

/-- Code that is read in front of tokens that do not go on with it. -/
def Runs {part : Part} (c : Code part) : Prop :=
  ∀ (goals : List Goal) (rest : List Token) (stop : Location), (c.isOpen = true → NoElse rest) →
    Goal.run (part.before ++ goals) ⟨c.tokens ++ rest, stop⟩ =
      (Goal.run (part.after ++ goals) ⟨rest, stop⟩).behind c.events

theorem runs_returned (loc : Location) (value : Option (Term .expression))
    (semicolon : Location) : (returned loc value semicolon).Runs := by
  intro goals rest stop _
  have hsemicolon : 9 ≤ looseness (⟨.punct .semicolon, semicolon⟩ :: rest) := Nat.le_refl 9
  simp only [tokens, List.append_assoc, List.cons_append, List.nil_append]
  refine (run_read rfl goals).trans ?_
  cases value with
  | none =>
    refine (run_replace rfl goals).trans ((run_read_nil rfl _).trans ?_)
    exact run_emit ..
  | some e =>
    refine (run_replace ((e.starts.append _).action_returnValue loc) goals).trans ?_
    refine (e.runs.expression hsemicolon).trans (Run.behind_eq ?_ _)
    exact (run_read_nil rfl _).trans (run_emit ..)

/-- The condition between the parentheses of a statement. -/
theorem run_condition {context context' : String} (left : Location) (condition : Term .expression)
    (right : Location) :
    Goal.run (.sign .leftParen context none :: .expression :: .sign .rightParen context' none ::
        goals)
      ⟨⟨.punct .leftParen, left⟩ :: (condition.tokens ++ ⟨.punct .rightParen, right⟩ :: rest),
        stop⟩ =
      (Goal.run goals ⟨rest, stop⟩).behind condition.events := by
  have hright : 9 ≤ looseness (⟨.punct .rightParen, right⟩ :: rest) := Nat.le_refl 9
  refine (run_read_nil rfl _).trans ((condition.runs.expression hright).trans (congrArg _ ?_))
  exact run_read_nil rfl _

theorem Runs.ifThen {yes : Code .statement} (hyes : yes.Runs) (loc left : Location)
    (condition : Term .expression) (right : Location) :
    (ifThen loc left condition right yes).Runs := by
  intro goals rest stop h
  have hno : NoElse rest := h rfl
  have helse : (Goal.elseBranch loc).action ⟨rest, stop⟩ = .replace [.emit .ifThen loc] := by
    simp only [Goal.action]
    split
    · exact (hno _ _ rfl).elim
    · rfl
  simp only [tokens, List.append_assoc, List.cons_append]
  calc
    _ = (Goal.run (.statement :: .elseBranch loc :: goals) ⟨yes.tokens ++ rest, stop⟩).behind
          condition.events := (run_read rfl goals).trans (run_condition left condition right)
    _ = (Goal.run (.elseBranch loc :: goals) ⟨rest, stop⟩).behind
          (condition.events ++ yes.events) := Run.behind_eq (hyes _ rest stop fun _ => hno) _
    _ = _ := Run.behind_eq ((run_replace helse goals).trans (run_emit ..)) _

/-- The branch in front of an else is not open, so that the else is not read as its own. -/
theorem Runs.ifElse {yes no : Code .statement} (hyes : yes.Runs) (hno : no.Runs)
    (hc : yes.isOpen = false) (loc left : Location) (condition : Term .expression)
    (right elseLoc : Location) : (ifElse loc left condition right yes elseLoc no).Runs := by
  intro goals rest stop h
  have hopen : yes.isOpen = true → NoElse (⟨.keyword .elseKw, elseLoc⟩ :: (no.tokens ++ rest)) :=
    fun ho => (Bool.false_ne_true (hc.symm.trans ho)).elim
  simp only [tokens, List.append_assoc, List.cons_append]
  calc
    _ = (Goal.run (.statement :: .elseBranch loc :: goals) ⟨yes.tokens ++
          ⟨.keyword .elseKw, elseLoc⟩ :: (no.tokens ++ rest), stop⟩).behind condition.events :=
      (run_read rfl goals).trans (run_condition left condition right)
    _ = (Goal.run (.elseBranch loc :: goals) ⟨⟨.keyword .elseKw, elseLoc⟩ :: (no.tokens ++ rest),
          stop⟩).behind (condition.events ++ yes.events) :=
      Run.behind_eq (hyes _ _ stop hopen) _
    _ = (Goal.run (.emit .ifElse loc :: goals) ⟨rest, stop⟩).behind
          (condition.events ++ yes.events ++ no.events) :=
      Run.behind_eq ((run_read rfl goals).trans (hno _ rest stop h)) _
    _ = _ := Run.behind_eq (run_emit ..) _

theorem Runs.whileLoop {body : Code .statement} (hbody : body.Runs) (loc left : Location)
    (condition : Term .expression) (right : Location) :
    (whileLoop loc left condition right body).Runs := by
  intro goals rest stop h
  simp only [tokens, List.append_assoc, List.cons_append]
  calc
    _ = (Goal.run (.statement :: .emit .whileLoop loc :: goals) ⟨body.tokens ++ rest,
          stop⟩).behind condition.events :=
      (run_read rfl goals).trans (run_condition left condition right)
    _ = (Goal.run (.emit .whileLoop loc :: goals) ⟨rest, stop⟩).behind
          (condition.events ++ body.events) := Run.behind_eq (hbody _ rest stop h) _
    _ = _ := Run.behind_eq (run_emit ..) _

theorem Runs.forLoop {body : Code .statement} (hbody : body.Runs) (loc left : Location)
    (clauses : Clauses) (right : Location) : (forLoop loc left clauses right body).Runs := by
  intro goals rest stop h
  simp only [tokens, List.append_assoc, List.cons_append]
  calc
    _ = (Goal.run (.sign .rightParen "after for clauses" none :: .statement ::
          .emit .forLoop loc :: goals) ⟨⟨.punct .rightParen, right⟩ :: (body.tokens ++ rest),
          stop⟩).behind (clauses.events right) := by
      refine (run_read rfl goals).trans ((run_read_nil rfl _).trans ?_)
      exact clauses.run right
    _ = (Goal.run (.emit .forLoop loc :: goals) ⟨rest, stop⟩).behind
          (clauses.events right ++ body.events) :=
      Run.behind_eq ((run_read_nil rfl _).trans (hbody _ rest stop h)) _
    _ = _ := Run.behind_eq (run_emit ..) _

theorem runs_simple (s : Simple) : (simple s).Runs := by
  intro goals rest stop _
  exact (run_replace (s.action_statement rest stop) goals).trans s.run

/-- Items end at the closing brace. -/
theorem Runs.closed {items : Code .items} (h : items.Runs) (closing : Location) :
    Goal.run (.items false :: goals) ⟨items.tokens ++ ⟨.punct .rightBrace, closing⟩ :: rest, stop⟩ =
      (Goal.run goals ⟨⟨.punct .rightBrace, closing⟩ :: rest, stop⟩).behind items.events := by
  refine (h goals _ stop fun _ loc more => by simp).trans (congrArg _ ?_)
  exact run_replace_nil rfl goals

theorem runs_emptyBlock (opening closing : Location) : (emptyBlock opening closing).Runs := by
  intro goals rest stop _
  calc
    _ = (Goal.run (.items false :: .sign .rightBrace "after block" (some .closeScope) :: goals)
          ⟨⟨.punct .rightBrace, closing⟩ :: rest, stop⟩).behind [⟨.openScope, opening⟩] :=
      (run_read rfl goals).trans (run_emit ..)
    _ = (Goal.run (.sign .rightBrace "after block" (some .closeScope) :: goals)
          ⟨⟨.punct .rightBrace, closing⟩ :: rest, stop⟩).behind
          [⟨.openScope, opening⟩, ⟨.emptyBlock, closing⟩] :=
      Run.behind_eq ((run_replace rfl _).trans (run_emit ..)) _
    _ = _ := Run.behind_eq ((run_read rfl goals).trans (run_emit ..)) _

theorem Runs.block {items : Code .items} (hitems : items.Runs) (opening closing : Location) :
    (block opening items closing).Runs := by
  intro goals rest stop _
  simp only [tokens, List.append_assoc, List.cons_append, List.nil_append]
  calc
    _ = (Goal.run (.items false :: .sign .rightBrace "after block" (some .closeScope) :: goals)
          ⟨items.tokens ++ ⟨.punct .rightBrace, closing⟩ :: rest, stop⟩).behind
          [⟨.openScope, opening⟩] := (run_read rfl goals).trans (run_emit ..)
    _ = (Goal.run (.sign .rightBrace "after block" (some .closeScope) :: goals)
          ⟨⟨.punct .rightBrace, closing⟩ :: rest, stop⟩).behind
          (⟨.openScope, opening⟩ :: items.events) := Run.behind_eq (hitems.closed closing) _
    _ = _ := Run.behind_eq ((run_read rfl goals).trans (run_emit ..)) _

theorem runs_declaration (d : Declaration) : (declaration d).Runs := by
  intro goals rest stop _
  exact (run_replace rfl goals).trans d.run

theorem Runs.statement {s : Code .statement} (hs : s.Runs) : (statement s).Runs := by
  intro goals rest stop h
  refine (run_replace (s.starts_statement.append rest).action_item goals).trans ?_
  exact hs goals rest stop h

theorem Runs.one {item : Code .item} (hitem : item.Runs) : (one item).Runs := by
  intro goals rest stop h
  refine (run_replace ((item.starts_item.append rest).action_items false) goals).trans ?_
  exact hitem (.items true :: goals) rest stop h

/-- An item starts with no else, so it ends the item in front of it. -/
theorem Runs.more {items : Code .items} {item : Code .item} (hitems : items.Runs)
    (hitem : item.Runs) : (more items item).Runs := by
  intro goals rest stop h
  have hstarts := item.starts_item.append rest
  have hplace : placeOf (item.tokens ++ rest) = placeOf item.tokens := by
    obtain ⟨t, ts, ht, -⟩ := item.starts_item
    rw [ht]
    rfl
  simp only [tokens, List.append_assoc]
  calc
    _ = (Goal.run (.items true :: goals) ⟨item.tokens ++ rest, stop⟩).behind items.events :=
      hitems goals _ stop fun _ => NoElse.of_starts hstarts
    _ = (Goal.run (.emit .sequence (placeOf item.tokens) :: .items true :: goals)
          ⟨rest, stop⟩).behind (items.events ++ item.events) := by
      refine Run.behind_eq ((run_replace (hstarts.action_items true) goals).trans ?_) _
      rw [hplace]
      exact hitem _ rest stop h
    _ = _ := Run.behind_eq (run_emit ..) _

/-- Code is read if every else branch in it belongs to the nearest conditional statement. -/
theorem runs {part : Part} (c : Code part) (h : c.ElseNearest) : c.Runs := by
  induction c with
  | returned loc value semicolon => exact runs_returned loc value semicolon
  | ifThen loc left condition right yes ih => exact (ih h).ifThen loc left condition right
  | ifElse loc left condition right yes elseLoc no ihy ihn =>
    exact (ihy h.2.1).ifElse (ihn h.2.2) h.1 loc left condition right elseLoc
  | whileLoop loc left condition right body ih => exact (ih h).whileLoop loc left condition right
  | forLoop loc left clauses right body ih => exact (ih h).forLoop loc left clauses right
  | emptyBlock opening closing => exact runs_emptyBlock opening closing
  | block opening items closing ih => exact (ih h).block opening closing
  | simple s => exact runs_simple s
  | declaration d => exact runs_declaration d
  | statement s ih => exact (ih h).statement
  | one item ih => exact (ih h).one
  | more items item ihs ih => exact (ihs h.1).more (ih h.2)

end Code

end MiniC
