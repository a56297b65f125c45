import MiniC.Proofs.Report.Declarations
import MiniC.Proofs.Run

/-!
# Where the types of a program come from

A rule brings a type into the analysis when it is a type specifier or a parameter (`Rule.type?`).
Every such type is that of a token (`TokenList.types_parse`), and every symbol that is declared
without an error has such a type, or `int`, which stands for a type that was left out
(`Analyzer.Records.type_mem`).
-/

namespace MiniC

/-- The type that a rule brings into the analysis. -/
def Rule.type? : Rule → Option DataType
  | typeSpecifier type | parameter _ type => some type
  | _ => none

namespace Goal

/-- The type of the rule that a goal is kept for. -/
def type? : Goal → Option DataType
  | emit rule _ => rule.type?
  | sign _ _ rule => rule.bind Rule.type?
  | parameterName type => some type
  | _ => none

/-- The type of a token that is a type specifier. -/
def tokenType? (t : Token) : Option DataType :=
  match t.kind with
  | .type type => some type
  | _ => none

variable {goal : Goal} {goals new : List Goal} {ts : TokenList} {P : DataType → Prop}

/-- The goals in the place of another name its types, and no others but those of the tokens. -/
theorem type?_goals (hts : ∀ type ∈ ts.tokens.filterMap tokenType?, P type)
    (hg : ∀ type ∈ goal.type?, P type) (h : (goal.action ts).goals? = some new) :
    ∀ type ∈ new.filterMap type?, P type := by
  have hnil : ∀ type ∈ ([] : List DataType), P type := by simp
  revert h
  cases goal with
  | sign p context rule =>
    simp only [action]
    (repeat' split) <;> intro h <;> cases h
    cases rule with
    | none => exact hnil
    | some r => simpa [type?] using hg
  | externals joined | items joined =>
    cases joined <;> simp only [action] <;> (repeat' split) <;> intro h <;> cases h <;>
      exact hnil
  | operands level | moreOperands level =>
    cases level <;> simp only [action] <;> (repeat' split) <;> intro h <;> cases h <;> exact hnil
  | parameterName type =>
    simp only [action]
    (repeat' split) <;> intro h <;> cases h
    · exact List.forall_mem_singleton.2 (hg type rfl)
    · exact hnil
  | external | declaration | parameter =>
    simp only [action, externalAction]
    (repeat' split) <;> intro h <;> cases h <;>
      first | exact hnil | simp_all [type?, Rule.type?, tokenType?]
  | _ =>
    simp only [action, statementAction, primaryAction]
    (repeat' split) <;> intro h <;> cases h <;> exact hnil

theorem type?_replace (hts : ∀ type ∈ ts.tokens.filterMap tokenType?, P type)
    (hg : ∀ type ∈ (goal :: goals).filterMap type?, P type)
    (h : (goal.action ts).goals? = some new) : ∀ type ∈ (new ++ goals).filterMap type?, P type := by
  rw [List.forall_mem_filterMap, List.forall_mem_cons] at hg
  rw [List.filterMap_append, List.forall_mem_append, List.forall_mem_filterMap (l := goals)]
  exact ⟨type?_goals hts hg.1 h, hg.2⟩

/-- The events of a run name the types of its tokens and of its goals. -/
theorem types_run (hts : ∀ type ∈ ts.tokens.filterMap tokenType?, P type)
    (hg : ∀ type ∈ goals.filterMap type?, P type) :
    ∀ e ∈ (run goals ts).events, ∀ type ∈ e.rule.type?, P type := by
  fun_induction run goals ts with
  | case1 ts => simp
  | case2 ts goal goals event h r =>
    rename_i ih
    obtain rfl := eq_emit h
    rw [List.forall_mem_filterMap, List.forall_mem_cons] at hg
    exact List.forall_mem_cons.2 ⟨hg.1, ih hts (List.forall_mem_filterMap.2 hg.2)⟩
  | case3 ts goal goals new h ih => exact ih hts (type?_replace hts hg (by rw [h]; rfl))
  | case4 ts goal goals new rest h ih =>
    obtain ⟨t, ht⟩ := eq_cons_of_read h
    refine ih ?_ (type?_replace hts hg (by rw [h]; rfl))
    rw [ht, List.forall_mem_filterMap, List.forall_mem_cons] at hts
    exact List.forall_mem_filterMap.2 hts.2
  | case5 ts goal goals what h => simp

end Goal

/-- The events of a program name no types but those of its tokens. -/
theorem TokenList.types_parse {ts : TokenList} {P : DataType → Prop}
    (hts : ∀ t ∈ ts.tokens, ∀ type, t.kind = .type type → P type) :
    ∀ e ∈ ts.parse.events, ∀ type ∈ e.rule.type?, P type := by
  refine Goal.types_run (List.forall_mem_filterMap.2 fun t ht type htype => ?_)
    (by simp [Goal.type?])
  obtain ⟨kind, loc⟩ := t
  cases kind with
  | type s =>
    obtain rfl := Option.some.inj htype
    exact hts _ ht _ rfl
  | _ => cases htype

/-! ## The types of what is declared -/

namespace Register

/-- The type of the declaration that is being read and those of the entries are among the given
ones. -/
def TypesIn (P : DataType → Prop) (r : Register) : Prop :=
  (∀ type ∈ r.type, P type) ∧ ∀ e ∈ r.entries, P e.type

variable {r : Register} {event : Event} {events : List Event} {P : DataType → Prop}

theorem TypesIn.note (h : r.TypesIn P) (hint : P .int) (he : ∀ type ∈ event.rule.type?, P type) :
    (r.note event).TypesIn P := by
  obtain ⟨ht, hr⟩ := h
  have hdeclared : P (r.type.getD .int) := by
    cases htype : r.type with
    | none => exact hint
    | some type => exact ht type htype
  have hlisted : ∀ e ∈ event.rule.listed? r.type r.depth event.location.line, P e.type := by
    obtain ⟨rule, loc⟩ := event
    cases rule
    case functionDeclarator name typed =>
      rintro _ ⟨⟩
      cases typed with
      | false => exact hint
      | true => exact hdeclared
    case parameter name type =>
      rintro _ ⟨⟩
      exact he type rfl
    case declTarget | declarator =>
      rintro _ ⟨⟩
      exact hdeclared
    all_goals exact nofun
  refine ⟨?_, List.forall_mem_append.2 ⟨hr, fun e hm => hlisted e (Option.mem_toList.1 hm)⟩⟩
  obtain ⟨rule, loc⟩ := event
  cases rule
  case typeSpecifier type => exact he
  case functionDeclarator | declaration => exact nofun
  all_goals exact ht

theorem TypesIn.noteAll (h : r.TypesIn P) (hint : P .int)
    (he : ∀ e ∈ events, ∀ type ∈ e.rule.type?, P type) : (r.noteAll events).TypesIn P := by
  induction events generalizing r with
  | nil => exact h
  | cons event events ih =>
    obtain ⟨hevent, hevents⟩ := List.forall_mem_cons.1 he
    exact ih (h.note hint hevent) hevents

end Register

/-- A symbol that was declared without an error has a type that an event names, or `int`. -/
theorem Analyzer.Records.type_mem {a : Analyzer} {r : Register} {P : DataType → Prop}
    (h : a.Records r) (hr : r.TypesIn P) {id : SymbolId} {s : Symbol} {type : DataType}
    (hs : a.symbols.get? id = some s) (ht : s.type = some type) : P type := by
  have hid := h.lists id
  rw [hs, Option.map_some, eq_comm, Option.map_eq_some_iff] at hid
  obtain ⟨e, he, hlisted⟩ := hid
  simp only [Symbol.listed?, ht, Option.map_some, Option.some.injEq] at hlisted
  subst hlisted
  exact hr.2 _ (List.mem_of_getElem? he)

end MiniC
