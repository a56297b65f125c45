import MiniC.Proofs.Grammar.Derivation
import MiniC.Proofs.Scoping

/-!
# Scopes of a derivation follow its braces

A function opens its scope at its name, in front of its parameters, and the braces of its body have
no rules of their own; any other block opens and closes a scope at its braces. `braces` counts the
braces that are open behind some tokens. `Follows depth tokens events` says that in a text inside
`depth` scopes every variable stands behind as many open braces as scopes are open, that parameters
stand in the scope of their function alone and that no scope is closed which was not opened.

Texts that stand one behind the other follow their braces if each of them does (`Follows.append`),
and so does a block (`Follows.block`); `Program.follows` puts together the derivation of a program.
-/

namespace MiniC

/-! ## Depths -/

/-- The number of braces that the tokens open, less those that they close. -/
def braces (tokens : List Token) : Int :=
  ((tokens.map Token.kind).count (.punct .leftBrace) : Int) -
    (tokens.map Token.kind).count (.punct .rightBrace)

@[simp] theorem braces_nil : braces [] = 0 := rfl

@[simp] theorem braces_append (front back : List Token) :
    braces (front ++ back) = braces front + braces back := by
  simp only [braces, List.map_append, List.count_append]
  omega

theorem braces_cons (t : Token) (tokens : List Token) :
    braces (t :: tokens) = braces [t] + braces tokens := braces_append [t] tokens

namespace Rule

/-- The variable that the rule names at its place. -/
def mentions : Rule → Option String
  | declTarget name | declarator name | identifier name => some name
  | _ => none

/-- Whether the rule closes a scope. -/
def closes : Rule → Bool
  | closeScope | functionDefinition _ _ => true
  | _ => false

/-- Whether the rule neither names anything nor opens or closes a scope. -/
def isPlain : Rule → Bool
  | openScope | closeScope | functionDeclarator _ _ | functionDefinition _ _ | parameter _ _
  | declTarget _ | declarator _ | identifier _ => false
  | _ => true

end Rule

/-- The number of open scopes behind the events, with `depth` of them open in front. -/
def scopesAfter (depth : Nat) (events : List Event) : Nat :=
  events.foldl (fun depth event => event.rule.depthBehind depth) depth

theorem scopesAfter_append (depth : Nat) (events more : List Event) :
    scopesAfter depth (events ++ more) = scopesAfter (scopesAfter depth events) more :=
  List.foldl_append

/-- `P` holds of every event and the number of scopes that are open in front of it. -/
def AtDepths (P : Event → Nat → Prop) : Nat → List Event → Prop
  | _, [] => True
  | depth, event :: events => P event depth ∧ AtDepths P (event.rule.depthBehind depth) events

theorem atDepths_append {P : Event → Nat → Prop} {depth : Nat} {events more : List Event} :
    AtDepths P depth (events ++ more) ↔
      AtDepths P depth events ∧ AtDepths P (scopesAfter depth events) more := by
  induction events generalizing depth with
  | nil => exact (iff_of_eq (true_and _)).symm
  | cons event events ih =>
    simp only [List.cons_append, AtDepths, ih, and_assoc]
    rfl

theorem AtDepths.imp {P Q : Event → Nat → Prop} {depth : Nat} {events : List Event}
    (h : AtDepths P depth events) (himp : ∀ event n, P event n → Q event n) :
    AtDepths Q depth events := by
  induction events generalizing depth with
  | nil => trivial
  | cons event events ih => exact ⟨himp _ _ h.1, ih h.2⟩

/-- The place of an event with `n` scopes open in front of it, in a text that stands inside `depth`
scopes. -/
structure Placed (depth : Nat) (tokens : List Token) (event : Event) (n : Nat) : Prop where
  /-- A variable stands behind as many open braces as scopes are open. -/
  mention : ∀ name, event.rule.mentions = some name → ∃ front back,
    tokens = front ++ ⟨.name name, event.location⟩ :: back ∧ (n : Int) = depth + braces front
  parameter : ∀ name type, event.rule = .parameter name type → n = 1
  close : event.rule.closes = true → 0 < n

/-- The scopes of the events follow the braces of the tokens, inside `depth` scopes. -/
structure Follows (depth : Nat) (tokens : List Token) (events : List Event) : Prop where
  balanced : braces tokens = 0
  level : scopesAfter depth events = depth
  placed : AtDepths (Placed depth tokens) depth events

variable {depth d n : Nat} {tokens more front back : List Token} {events later : List Event}
  {event : Event} {t : Token}

/-- A text stands in a larger one, whose front opens the scopes that it stands inside. -/
theorem Placed.embed (h : Placed d tokens event n) (front back : List Token)
    (hd : (d : Int) = depth + braces front) : Placed depth (front ++ tokens ++ back) event n where
  mention name hn := by
    obtain ⟨before, behind, rfl, hb⟩ := h.mention name hn
    refine ⟨front ++ before, behind ++ back, by simp, ?_⟩
    rw [hb, hd, braces_append]
    omega
  parameter := h.parameter
  close := h.close

theorem placed_of_isPlain (h : event.rule.isPlain = true) : Placed depth tokens event n := by
  obtain ⟨rule, loc⟩ := event
  constructor <;> cases rule <;> simp_all [Rule.isPlain, Rule.mentions, Rule.closes]

theorem Rule.depthBehind_of_isPlain {r : Rule} (h : r.isPlain = true) (depth : Nat) :
    r.depthBehind depth = depth := by
  cases r <;> first | rfl | cases h

namespace Follows

theorem nil : Follows depth [] [] := ⟨rfl, rfl, trivial⟩

theorem append (h : Follows depth tokens events) (h' : Follows depth more later) :
    Follows depth (tokens ++ more) (events ++ later) where
  balanced := by rw [braces_append, h.balanced, h'.balanced]; rfl
  level := by rw [scopesAfter_append, h.level, h'.level]
  placed := by
    rw [atDepths_append, h.level]
    refine ⟨h.placed.imp fun event n hp => ?_, h'.placed.imp fun event n hp => ?_⟩
    · exact hp.embed [] more (by simp)
    · simpa using hp.embed tokens [] (by simp [h.balanced])

theorem plain (h : event.rule.isPlain = true) : Follows depth [] [event] where
  balanced := rfl
  level := Rule.depthBehind_of_isPlain h depth
  placed := ⟨placed_of_isPlain h, trivial⟩

theorem token (h : braces [t] = 0) : Follows depth [t] [] := ⟨h, rfl, trivial⟩

theorem mention {rule : Rule} {name : String} (h : rule.mentions = some name) (loc : Location) :
    Follows depth [⟨.name name, loc⟩] [⟨rule, loc⟩] where
  balanced := rfl
  level := by cases rule <;> first | rfl | cases h
  placed := by
    refine ⟨⟨fun n hn => ?_, fun n type hr => ?_, fun hc => ?_⟩, trivial⟩
    · obtain rfl := Option.some.inj (h.symm.trans hn)
      exact ⟨[], [], rfl, by simp⟩
    · obtain rfl : rule = _ := hr
      cases h
    · cases rule
      case declTarget | declarator | identifier => exact (Bool.false_ne_true hc).elim
      all_goals cases h

theorem cons_token (h : Follows depth tokens events) (ht : braces [t] = 0) :
    Follows depth (t :: tokens) events := (token ht).append h

theorem snoc_token (h : Follows depth tokens events) (ht : braces [t] = 0) :
    Follows depth (tokens ++ [t]) events := by
  simpa using h.append (token ht)

theorem cons_event (h : Follows depth tokens events) (he : event.rule.isPlain = true) :
    Follows depth tokens (event :: events) := (plain he).append h

theorem snoc_event (h : Follows depth tokens events) (he : event.rule.isPlain = true) :
    Follows depth tokens (events ++ [event]) := by
  simpa using h.append (plain he)

/-- A block, whose braces and scope open and close together. -/
theorem block (h : Follows (depth + 1) tokens events) (opening closing : Location) :
    Follows depth (⟨.punct .leftBrace, opening⟩ :: tokens ++ [⟨.punct .rightBrace, closing⟩])
      (⟨.openScope, opening⟩ :: events ++ [⟨.closeScope, closing⟩]) := by
  have hopen : braces [⟨.punct .leftBrace, opening⟩] = 1 := rfl
  have hclose : braces [⟨.punct .rightBrace, closing⟩] = -1 := rfl
  have hlevel : scopesAfter depth (⟨.openScope, opening⟩ :: events) = depth + 1 := h.level
  refine ⟨?_, ?_, ?_⟩
  · rw [braces_append, braces_cons, h.balanced, hopen, hclose]
    rfl
  · rw [scopesAfter_append, hlevel]
    rfl
  · rw [atDepths_append, hlevel]
    refine ⟨⟨⟨nofun, nofun, nofun⟩, h.placed.imp fun event n hp => ?_⟩,
      ⟨nofun, nofun, fun _ => Nat.succ_pos depth⟩, trivial⟩
    exact hp.embed [⟨.punct .leftBrace, opening⟩] _ (by simp [hopen])

end Follows

/-! ## Derivations -/

/-- An operator is no brace. -/
theorem braces_of_operator {p : Punct} (h : p.postfixOp?.isSome ∨ p.unaryOp?.isSome ∨
    p.binaryOp?.isSome ∨ p.assignOp?.isSome) (loc : Location) : braces [⟨.punct p, loc⟩] = 0 := by
  cases p
  case leftBrace | rightBrace =>
    simp [Punct.postfixOp?, Punct.unaryOp?, Punct.binaryOp?, Punct.assignOp?] at h
  all_goals rfl

theorem Term.follows {tier : Tier} (e : Term tier) (depth : Nat) :
    Follows depth e.tokens e.events := by
  induction e with
  | literal value loc => exact (Follows.nil.cons_token rfl).snoc_event rfl
  | identifier name loc => exact .mention rfl loc
  | parens left e right ih => exact (ih.cons_token rfl).snoc_token rfl
  | postfixed e h loc ih =>
    exact (ih.snoc_token (braces_of_operator (by simp [h]) loc)).snoc_event rfl
  | unary h loc e ih =>
    exact (ih.cons_token (braces_of_operator (by simp [h]) loc)).snoc_event rfl
  | binary lhs h hl loc rhs ihl ihr =>
    exact (ihl.append (ihr.cons_token (braces_of_operator (by simp [h]) loc))).snoc_event rfl
  | ternary condition question yes colon no ihc ihy ihn =>
    exact ((ihc.append (ihy.cons_token rfl)).append (ihn.cons_token rfl)).snoc_event rfl
  | assign target h loc source iht ihs =>
    exact (iht.append (ihs.cons_token (braces_of_operator (by simp [h]) loc))).snoc_event rfl
  | comma first loc second ihf ihs => exact (ihf.append (ihs.cons_token rfl)).snoc_event rfl
  | ofPrimary e ih | ofPostfixed e ih | ofBelow e ih | ofOperands e ih | ofConditional e ih
  | ofAssignment e ih => exact ih

theorem follows_tokensOf? (e : Option (Term .expression)) (depth : Nat) :
    Follows depth (tokensOf? e) (e.elim [] Term.events) := by
  cases e with
  | none => exact .nil
  | some e => exact e.follows depth

theorem Declarator.follows (d : Declarator) (depth : Nat) :
    Follows depth d.tokens d.events := by
  cases d with
  | plain name loc => exact .mention rfl loc
  | initialized name loc equal value =>
    exact (Follows.mention rfl loc).append ((value.follows depth).cons_token rfl) |>.snoc_event rfl

theorem Declarators.follows (ds : Declarators) (depth : Nat) :
    Follows depth ds.tokens ds.events := by
  induction ds with
  | one d => exact d.follows depth
  | more ds comma d ih => exact (ih.append ((d.follows depth).cons_token rfl)).snoc_event rfl

theorem Declaration.follows (d : Declaration) (depth : Nat) : Follows depth d.tokens d.events :=
  (((d.declarators.follows depth).cons_token rfl).snoc_token rfl).cons_event rfl |>.snoc_event rfl

theorem Simple.follows (s : Simple) (depth : Nat) : Follows depth s.tokens s.events := by
  cases s with
  | empty semicolon => exact (Follows.token rfl).snoc_event rfl
  | expression e semicolon => exact (e.follows depth).snoc_token rfl

theorem Clauses.follows (c : Clauses) (close : Location) (depth : Nat) :
    Follows depth c.tokens (c.events close) := by
  have hstep : Follows depth (tokensOf? c.step)
      (c.step.elim [⟨.emptyStatement, close⟩] Term.events) := by
    cases c.step with
    | none => exact .plain rfl
    | some e => exact e.follows depth
  exact ((c.init.follows depth).append (c.condition.follows depth)).append hstep

/-- What stands behind a keyword and a pair of parentheses. -/
theorem Follows.headed (h : Follows depth tokens events) (h' : Follows depth more later)
    (word : Keyword) (loc left right : Location) :
    Follows depth (⟨.keyword word, loc⟩ :: ⟨.punct .leftParen, left⟩ :: tokens ++
      ⟨.punct .rightParen, right⟩ :: more) (events ++ later) :=
  ((h.cons_token rfl).cons_token rfl).append (h'.cons_token rfl)

theorem Code.follows {part : Part} (code : Code part) (depth : Nat) :
    Follows depth code.tokens code.events := by
  induction code generalizing depth with
  | returned loc value semicolon =>
    exact (((follows_tokensOf? value depth).cons_token rfl).snoc_token rfl).snoc_event rfl
  | ifThen loc left condition right s ih | whileLoop loc left condition right s ih =>
    exact ((condition.follows depth).headed (ih depth) _ loc left right).snoc_event rfl
  | ifElse loc left condition right yes elseLoc no ihy ihn =>
    have hyes := (condition.follows depth).headed (ihy depth) .ifKw loc left right
    exact (hyes.append ((ihn depth).cons_token rfl)).snoc_event rfl
  | forLoop loc left clauses right body ih =>
    exact ((clauses.follows right depth).headed (ih depth) _ loc left right).snoc_event rfl
  | emptyBlock opening closing => exact (Follows.plain rfl).block opening closing
  | block opening items closing ih => exact (ih (depth + 1)).block opening closing
  | simple s => exact s.follows depth
  | declaration d => exact d.follows depth
  | statement s ih | one s ih => exact ih depth
  | more items item ihs ih => exact ((ihs depth).append (ih depth)).snoc_event rfl

theorem Items.follows (items : Items) (closing : Location) (depth : Nat) :
    Follows depth items.tokens (items.events closing) := by
  cases items with
  | none => exact .plain rfl
  | some code => exact code.follows depth

/-! ## Functions -/

/-- Parameters have no braces, and stand in the scope of their function alone. -/
structure Listed (tokens : List Token) (events : List Event) : Prop where
  balanced : braces tokens = 0
  parameters : ∀ event ∈ events, ∃ name type, event.rule = .parameter name type

theorem Listed.append (h : Listed tokens events) (h' : Listed more later) :
    Listed (tokens ++ more) (events ++ later) where
  balanced := by rw [braces_append, h.balanced, h'.balanced]; rfl
  parameters := List.forall_mem_append.2 ⟨h.parameters, h'.parameters⟩

theorem Listed.placed (h : Listed tokens events) (depth : Nat) (text : List Token) :
    scopesAfter 1 events = 1 ∧ AtDepths (Placed depth text) 1 events := by
  obtain ⟨-, h⟩ := h
  induction events with
  | nil => exact ⟨rfl, trivial⟩
  | cons event events ih =>
    obtain ⟨⟨name, type, hr⟩, h⟩ := List.forall_mem_cons.1 h
    obtain ⟨hlevel, hplaced⟩ := ih h
    have hd : event.rule.depthBehind 1 = 1 := by rw [hr]; rfl
    refine ⟨(congrArg (scopesAfter · events) hd).trans hlevel,
      ⟨fun n hn => ?_, fun _ _ _ => rfl, fun _ => Nat.one_pos⟩, hd.symm ▸ hplaced⟩
    rw [hr] at hn
    cases hn

theorem Parameter.listed (p : Parameter) : Listed p.tokens p.events := by
  obtain ⟨type, loc, _ | ⟨name, place⟩⟩ := p
  · exact ⟨rfl, nofun⟩
  · exact ⟨rfl, by simp [events]⟩

theorem ParameterList.listed (ps : ParameterList) : Listed ps.tokens ps.events := by
  induction ps with
  | one p => exact p.listed
  | more p comma ps ih =>
    have hcomma : Listed [⟨.punct .comma, comma⟩] [] := ⟨rfl, nofun⟩
    exact p.listed.append (hcomma.append ih)

theorem Parameters.listed (ps : Parameters) : Listed ps.tokens ps.events := by
  cases ps with
  | empty | void => exact ⟨rfl, nofun⟩
  | list ps => exact ps.listed

/-- The scope of a function opens in front of its parameters, and the brace behind them. -/
theorem Definition.follows (f : Definition) (typed : Bool) :
    Follows 0 f.tokens (f.events typed) := by
  let front : List Token := [⟨.name f.name, f.loc⟩, ⟨.punct .leftParen, f.left⟩] ++
    f.parameters.tokens ++ [⟨.punct .rightParen, f.right⟩, ⟨.punct .leftBrace, f.opening⟩]
  have hfront : braces front = 1 := by
    simp only [front, braces_append, f.parameters.listed.balanced]
    rfl
  have htokens : f.tokens = front ++ f.body.tokens ++ [⟨.punct .rightBrace, f.closing⟩] := by
    simp [tokens, front]
  have hbody := f.body.follows f.closing 1
  obtain ⟨hparameters, hplaced⟩ := f.parameters.listed.placed 0 f.tokens
  have hname : scopesAfter 0 (⟨.functionDeclarator f.name typed, f.loc⟩ :: f.parameters.events) =
      1 := hparameters
  have hlevel : scopesAfter 0 (⟨.functionDeclarator f.name typed, f.loc⟩ :: f.parameters.events ++
      f.body.events f.closing) = 1 := by
    rw [scopesAfter_append, hname, hbody.level]
  refine ⟨?_, ?_, ?_⟩
  · rw [htokens, braces_append, braces_append, hfront, hbody.balanced]
    rfl
  · rw [events, scopesAfter_append, hlevel]
    rfl
  · rw [events, atDepths_append, atDepths_append, hname, hlevel]
    refine ⟨⟨⟨⟨nofun, nofun, nofun⟩, hplaced⟩, ?_⟩,
      ⟨nofun, nofun, fun _ => Nat.one_pos⟩, trivial⟩
    refine hbody.placed.imp fun event n hp => ?_
    rw [htokens]
    exact hp.embed front _ (by rw [hfront]; rfl)

theorem External.follows (x : External) : Follows 0 x.tokens x.events := by
  cases x with
  | function f => exact f.follows false
  | typedFunction type loc f => exact ((f.follows true).cons_token rfl).cons_event rfl
  | declaration d => exact d.follows 0

theorem Externals.follows (xs : Externals) : Follows 0 xs.tokens xs.events := by
  induction xs with
  | one x => exact x.follows
  | more xs x ih => exact (ih.append x.follows).snoc_event rfl

theorem Program.follows (p : Program) : Follows 0 p.tokens p.events := by
  cases p with
  | none => exact .nil
  | some xs => exact xs.follows

end MiniC
