import MiniC.Proofs.Atomicity
import MiniC.Proofs.Execution.Operand
import MiniC.Proofs.Frame

/-!
# A compound assignment is its expansion

`x op= e` and `x = x op e` leave the same state, but for the subtree of the assignment
(`Analyzer.compound_eq_expansion`). Both read `x` before `e` is looked at, so this holds also when
`e` assigns to `x`.

The two part where the operator finds fault with its operands (`Operand.Faulty`) : a binary operator
then puts an operand of its own on the stack, and a compound assignment forgets the value.
-/

namespace MiniC

namespace Operand

/-- The operator divides by a known zero, or takes the remainder of a float. -/
def Faulty (op : BinaryOp) (lhs rhs : Operand) : Prop :=
  (op = .div ∨ op = .mod) ∧ rhs.isZero = true ∨
    op = .mod ∧ (lhs.type = some .float ∨ rhs.type = some .float)

variable {op : BinaryOp} {lhs rhs : Operand}

theorem floatRemainder?_of_not_float (hl : lhs.type ≠ some .float) (hr : rhs.type ≠ some .float) :
    lhs.floatRemainder? rhs = none := by
  have hint : DataType.int ≠ .float := by decide
  have hne {t : Option DataType} (h : t ≠ some .float) : t.getD .int ≠ .float := by
    cases t with
    | none => exact hint
    | some t => exact fun ht => h (congrArg some ht)
  exact if_neg (not_or.2 ⟨hne hl, hne hr⟩)

theorem floatRemainder?_of_not_faulty (h : ¬Faulty .mod lhs rhs) :
    lhs.floatRemainder? rhs = none := by
  obtain ⟨-, h⟩ := not_or.1 h
  obtain ⟨hl, hr⟩ := not_or.1 (not_and.1 h rfl)
  exact floatRemainder?_of_not_float hl hr

theorem binary_of_arithmetic? {assignment : AssignOp} (h : assignment.arithmetic? = some op)
    (lhs rhs : Operand) :
    binary op lhs rhs = ⟨lhs.promoted rhs, lhs.folded op rhs, none⟩ := by
  cases assignment <;> cases h <;> rfl

end Operand

namespace Analyzer

open Operand

variable {a b : Analyzer} {name : String} {id : SymbolId} {op : BinaryOp} {lhs rhs : Operand}
  {line : Nat}

theorem binary_of_not_faulty {rest : List Operand} (ho : a.operands = rhs :: lhs :: rest)
    (h : ¬Faulty op lhs rhs) : a.binary op line = a.node op.label 2 (.binary op lhs rhs) := by
  have hz : ¬(op = .div ∧ rhs.isZero = true) := fun hd => h (.inl ⟨.inl hd.1, hd.2⟩)
  simp only [binary, ho, if_neg hz]
  split
  · next l r hf =>
    rw [floatRemainder?_of_not_faulty h] at hf
    cases hf
  · rfl

theorem compoundSource_of_not_faulty (h : ¬Faulty op lhs rhs) :
    a.compoundSource op lhs rhs line = (⟨lhs.promoted rhs, lhs.folded op rhs, none⟩, a) := by
  unfold compoundSource
  split
  · next l r hf =>
    rw [floatRemainder?_of_not_faulty h] at hf
    cases hf
  · exact if_neg fun hz => h (.inl hz)

/-- The state with nothing on its stacks. -/
def bare (a : Analyzer) : Analyzer := { a with trees := .empty, operands := [] }

theorem paired_bare (a : Analyzer) : a.bare.Paired := rfl

theorem warnNarrowing_bare (a : Analyzer) (target : DataType) (source : Option DataType)
    (line : Nat) : a.bare.warnNarrowing target source line =
      (a.warnNarrowing target source line).bare := by
  have hif (condition : Bool) (problem : Problem) :
      a.bare.reportIf condition line problem = (a.reportIf condition line problem).bare := by
    cases condition <;> rfl
  cases source with
  | none => rfl
  | some source => exact hif ..

theorem node_bare_onto (a : Analyzer) (label : String) (t t' : Tree) (trees : List Tree)
    (r l o : Operand) (operands : List Operand) :
    (a.bare.onto (t :: t' :: trees) (r :: l :: operands)).node label 2 o =
      .ok (a.bare.onto (.ofChildren label [t', t] :: trees) (o :: operands)) := rfl

/-- What an assignment does beside its subtrees is decided by the symbol and the source alone. -/
theorem exists_assignTo (a : Analyzer) (id : SymbolId) (source : Operand) (line : Nat) :
    ∃ (b : Analyzer) (o : Operand), ∀ (op : AssignOp) (t t' : Tree) (trees : List Tree)
      (r l : Operand) (operands : List Operand), ∃ tree,
        (a.bare.onto (t :: t' :: trees) (r :: l :: operands)).assignTo op id source line =
          .ok (b.bare.onto (tree :: trees) (o :: operands)) := by
  cases ht : (a.symbols.get? id).bind Symbol.type with
  | none =>
    refine ⟨a, .unknown, fun op t t' trees r l operands => ⟨.ofChildren op.label [t', t], ?_⟩⟩
    have hs : (a.bare.onto (t :: t' :: trees) (r :: l :: operands)).symbols = a.symbols := rfl
    rw [assignTo, hs, ht]
    exact node_bare_onto a ..
  | some type =>
    let value := source.value.map (·.convert type)
    let c := a.warnNarrowing type source.type line
    let b := { c with symbols := c.symbols.assign id value }
    refine ⟨b, ⟨some type, value, none⟩,
      fun op t t' trees r l operands => ⟨.ofChildren op.label [t', t], ?_⟩⟩
    have hs : (a.bare.onto (t :: t' :: trees) (r :: l :: operands)).symbols = a.symbols := rfl
    have hw : (a.bare.onto (t :: t' :: trees) (r :: l :: operands)).warnNarrowing type source.type
        line = (a.warnNarrowing type source.type line).bare.onto (t :: t' :: trees)
          (r :: l :: operands) := by
      rw [warnNarrowing_onto, warnNarrowing_bare]
    simp only [assignTo, hs, ht, store, hw]
    exact node_bare_onto b ..

theorem assign_plain {rest : List Operand} (ho : a.operands = rhs :: lhs :: rest)
    (hid : lhs.symbol = some id) : a.assign .assign line = a.assignTo .assign id rhs line := by
  simp only [assign, ho, hid]
  rfl

/-- A compound assignment stores what the operator makes of both sides. -/
theorem assign_compound {op : AssignOp} {arithmetic : BinaryOp} {rest : List Operand}
    (ho : a.operands = rhs :: lhs :: rest) (hid : lhs.symbol = some id)
    (hop : op.arithmetic? = some arithmetic) (hf : ¬Faulty arithmetic lhs rhs) :
    a.assign op line = a.assignTo op id (.binary arithmetic lhs rhs) line := by
  simp only [assign, ho, hid, hop, compoundSource_of_not_faulty hf, binary_of_arithmetic? hop]

/-- Behind the right side both assignments leave one operand, and the same state but for the
subtrees. -/
theorem exists_assignments {op : AssignOp} {arithmetic : BinaryOp}
    (hop : op.arithmetic? = some arithmetic) (hf : ¬Faulty arithmetic lhs rhs)
    (hid : lhs.symbol = some id) {place equal : Location} (he : equal.line = place.line)
    (operator : Location) (a : Analyzer)
    (t t' t'' : Tree) (trees : List Tree) (operands : List Operand) :
    ∃ (b : Analyzer) (o : Operand) (compound expanded : Tree),
      (a.bare.onto (t :: t' :: trees) (rhs :: lhs :: operands)).after [⟨.assign op, place⟩] =
        .ok (b.bare.onto (compound :: trees) (o :: operands)) ∧
      (a.bare.onto (t :: t' :: t'' :: trees) (rhs :: lhs :: lhs :: operands)).after
          [⟨.binary arithmetic, operator⟩, ⟨.assign .assign, equal⟩] =
        .ok (b.bare.onto (expanded :: trees) (o :: operands)) := by
  obtain ⟨b, o, h⟩ := exists_assignTo a id (.binary arithmetic lhs rhs) place.line
  obtain ⟨compound, hc⟩ := h op t t' trees rhs lhs operands
  obtain ⟨expanded, hx⟩ := h .assign (.ofChildren arithmetic.label [t', t]) t'' trees
    (.binary arithmetic lhs rhs) lhs operands
  refine ⟨b, o, compound, expanded, after_cons_of_ok ?_ [], ?_⟩
  · rw [← hc]
    exact assign_compound (a := a.bare.onto _ _) rfl hid hop hf
  · have hbinary : (a.bare.onto (t :: t' :: t'' :: trees) (rhs :: lhs :: lhs :: operands)).apply
        ⟨.binary arithmetic, operator⟩ = _ :=
      (binary_of_not_faulty (a := a.bare.onto _ _) rfl hf).trans (node_bare_onto ..)
    rw [after_cons_of_ok hbinary]
    refine after_cons_of_ok ?_ []
    rw [← hx, ← he]
    exact assign_plain (a := a.bare.onto _ _) rfl hid

end Analyzer

/-- The events of `x op= e`. -/
def Term.compound {tier : Tier} (e : Term tier) (name : String) (op : AssignOp)
    (use place : Location) : List Event :=
  ⟨.identifier name, use⟩ :: e.events ++ [⟨.assign op, place⟩]

/-- The events of `x = x op e`. -/
def Term.expansion {tier : Tier} (e : Term tier) (name : String) (op : BinaryOp)
    (target use operator place : Location) : List Event :=
  ⟨.identifier name, target⟩ :: ⟨.identifier name, use⟩ :: e.events ++
    [⟨.binary op, operator⟩, ⟨.assign .assign, place⟩]

namespace Analyzer

open Operand

/-- Behind any events, rejected or not, an assignment `x op= e` to a name with a type and its
expansion `x = x op e` can both be applied. Unless the operator finds fault with what `x` and `e`
leave, both put the same operand on top, and the states behind them differ in their subtrees
alone. -/
theorem compound_eq_expansion (events : List Event) {name : String} {id : SymbolId} {s : Symbol}
    (hl : (start.attemptAll events).symbols.lookup? name = some id)
    (hs : (start.attemptAll events).symbols.get? id = some s) (ht : s.isTyped = true)
    {tier : Tier} (e : Term tier) {op : AssignOp} {arithmetic : BinaryOp}
    (hop : op.arithmetic? = some arithmetic) (use place target use' operator equal : Location)
    (he : equal.line = place.line) :
    ∃ d lhs rhs, (start.attemptAll events).after (⟨.identifier name, use⟩ :: e.events) = .ok d ∧
      d.operands = rhs :: lhs :: (start.attemptAll events).operands ∧
      (¬Faulty arithmetic lhs rhs →
        ∃ b o trees, (start.attemptAll events).after (e.compound name op use place) = .ok b ∧
          b.operands = o :: (start.attemptAll events).operands ∧
          (start.attemptAll events).after (e.expansion name arithmetic target use' operator equal) =
            .ok { b with trees }) := by
  generalize start.attemptAll events = a at hl hs
  let lhs : Operand := ⟨s.type, s.value, some id⟩
  let leaf : Tree := .leaf name
  have hname (trees : List Tree) (operands : List Operand) (loc : Location) :
      (a.bare.onto trees operands).apply ⟨.identifier name, loc⟩ =
        .ok (a.bare.onto (leaf :: trees) (lhs :: operands)) :=
    congrArg Except.ok (identifier_eq_leaf (a := a.bare.onto trees operands) hl hs ht loc.line)
  have honce (loc : Location) : a.apply ⟨.identifier name, loc⟩ =
      .ok (a.bare.onto (leaf :: a.trees.trees) (lhs :: a.operands)) :=
    hname a.trees.trees a.operands loc
  -- what `e` does is known from a state with nothing below it
  obtain ⟨c, hc, hp, hd⟩ := e.leaves_after (paired_bare a)
  obtain ⟨tree, ht⟩ : ∃ tree, c.trees = ⟨[tree]⟩ := by
    obtain ⟨tree, ht⟩ := List.length_eq_one_iff.1 hd
    exact ⟨tree, by rw [← ht]⟩
  obtain ⟨rhs, ho⟩ := List.length_eq_one_iff.1 (hp.trans hd)
  have honto (trees : List Tree) (operands : List Operand) :
      (a.bare.onto trees operands).after e.events =
        .ok (c.bare.onto (tree :: trees) (rhs :: operands)) := by
    rw [after_onto trees operands hc, onto, ht, ho]
    rfl
  refine ⟨c.bare.onto (tree :: leaf :: a.trees.trees) (rhs :: lhs :: a.operands), lhs, rhs, ?_, rfl,
    fun hf => ?_⟩
  · rw [after_cons_of_ok (honce use)]
    exact honto ..
  · obtain ⟨b, o, compound, expanded, hcompound, hexpanded⟩ := exists_assignments hop hf rfl he
      operator c tree leaf leaf a.trees.trees a.operands
    refine ⟨b.bare.onto (compound :: a.trees.trees) (o :: a.operands), o,
      ⟨expanded :: a.trees.trees⟩, ?_, rfl, ?_⟩
    · exact (after_cons_of_ok (honce use) _).trans
        ((after_append_of_ok (honto ..) _).trans hcompound)
    · exact (after_cons_of_ok (honce target) _).trans ((after_cons_of_ok (hname _ _ use') _).trans
        ((after_append_of_ok (honto ..) _).trans hexpanded))

/-- The source of `x+=x-=3`, which assigns to `x` itself. -/
def assigningSource : Term .assignment :=
  .assign (.alone (.identifier "x" ⟨1, 16⟩)) (p := .minusEqual) rfl ⟨1, 17⟩
    (.ofConditional (.alone (.literal (.int 3) ⟨1, 19⟩)))

/-- Of a variable that holds `4`, `x+=x-=3` and `x=x+(x-=3)` both make `5`. -/
theorem compound_of_assigningSource :
    ∃ before after b trees, (parse "int x=4;f()\x7bx+=x-=3;\x7d").events =
        before ++ assigningSource.compound "x" .add ⟨1, 13⟩ ⟨1, 14⟩ ++ after ∧
      (start.attemptAll before).symbols.lookup? "x" = some 0 ∧
      (start.attemptAll before).symbols.get? 0 =
        some ⟨"x", .identifier, some .int, 0, 1, some (.int 4), true⟩ ∧
      (start.attemptAll before).after (assigningSource.compound "x" .add ⟨1, 13⟩ ⟨1, 14⟩) = .ok b ∧
      b.operands.head? = some ⟨some .int, some (.int 5), none⟩ ∧
      (start.attemptAll before).after (assigningSource.expansion "x" .add ⟨1, 13⟩ ⟨1, 15⟩ ⟨1, 16⟩
        ⟨1, 14⟩) = .ok { b with trees } := by
  let before : List Event := [⟨.typeSpecifier .int, ⟨1, 1⟩⟩, ⟨.declTarget "x", ⟨1, 5⟩⟩,
    ⟨.literal (.int 4), ⟨1, 7⟩⟩, ⟨.initDeclarator "x", ⟨1, 5⟩⟩, ⟨.declaration, ⟨1, 8⟩⟩,
    ⟨.functionDeclarator "f" false, ⟨1, 9⟩⟩]
  have he : (parse "int x=4;f()\x7bx+=x-=3;\x7d").events =
      before ++ assigningSource.compound "x" .add ⟨1, 13⟩ ⟨1, 14⟩ ++
        [⟨.functionDefinition "f" false, ⟨1, 9⟩⟩, ⟨.sequence, ⟨1, 9⟩⟩] := by cbv
  have hl : (start.attemptAll before).symbols.lookup? "x" = some 0 := by cbv
  have hs : (start.attemptAll before).symbols.get? 0 =
      some ⟨"x", .identifier, some .int, 0, 1, some (.int 4), true⟩ := by cbv
  have hv : ((start.attemptAll before).after
      (assigningSource.compound "x" .add ⟨1, 13⟩ ⟨1, 14⟩)).toOption.map (·.operands.head?) =
        some (some ⟨some .int, some (.int 5), none⟩) := by cbv
  have hop : AssignOp.add.arithmetic? = some .add := rfl
  obtain ⟨-, lhs, rhs, -, -, h⟩ := compound_eq_expansion before hl hs rfl assigningSource hop
    ⟨1, 13⟩ ⟨1, 14⟩ ⟨1, 13⟩ ⟨1, 15⟩ ⟨1, 16⟩ ⟨1, 14⟩ rfl
  obtain ⟨b, o, trees, hb, -, hx⟩ := h (by simp [Faulty])
  rw [hb] at hv
  exact ⟨before, _, b, trees, he, hl, hs, hb, Option.some.inj hv, hx⟩

end Analyzer

end MiniC
