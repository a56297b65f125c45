import MiniC.Proofs.Grammar.Derivation

/-!
# Every text has a derivation with the nearest else

A derivation in which an else branch belongs to a conditional statement further out can be changed :
`Code.attach` gives the branch to the nearest one that has none. `Code.nearest` does so everywhere.
The text stays as it was (`Code.tokens_nearest`), and every else branch then belongs to the nearest
conditional statement (`Code.elseNearest_nearest`). `Program.nearest` is the same for a program.
-/

namespace MiniC

namespace Code

/-- The else branch becomes that of the nearest conditional statement without one at the end of the
statement. -/
def attach : Code .statement → Location → Code .statement → Code .statement
  | ifThen loc left condition right yes, elseLoc, no =>
    if yes.isOpen then ifThen loc left condition right (yes.attach elseLoc no)
    else ifElse loc left condition right yes elseLoc no
  | ifElse loc left condition right yes loc' no', elseLoc, no =>
    ifElse loc left condition right yes loc' (no'.attach elseLoc no)
  | whileLoop loc left condition right body, elseLoc, no =>
    whileLoop loc left condition right (body.attach elseLoc no)
  | forLoop loc left clauses right body, elseLoc, no =>
    forLoop loc left clauses right (body.attach elseLoc no)
  | s, _, _ => s

theorem tokens_attach : ∀ (s : Code .statement) (elseLoc : Location) (no : Code .statement),
    s.isOpen = true →
      (s.attach elseLoc no).tokens = s.tokens ++ ⟨.keyword .elseKw, elseLoc⟩ :: no.tokens
  | ifThen loc left condition right yes, elseLoc, no, _ => by
    rw [attach]
    split
    · next hyes => simp [tokens, tokens_attach yes elseLoc no hyes]
    · simp [tokens]
  | ifElse loc left condition right yes loc' no', elseLoc, no, h => by
    simp [attach, tokens, tokens_attach no' elseLoc no h]
  | whileLoop loc left condition right body, elseLoc, no, h => by
    simp [attach, tokens, tokens_attach body elseLoc no h]
  | forLoop loc left clauses right body, elseLoc, no, h => by
    simp [attach, tokens, tokens_attach body elseLoc no h]

theorem elseNearest_attach : ∀ (s : Code .statement) (elseLoc : Location)
    (no : Code .statement), s.isOpen = true → s.ElseNearest → no.ElseNearest →
      (s.attach elseLoc no).ElseNearest
  | ifThen loc left condition right yes, elseLoc, no, _, hs, hno => by
    rw [attach]
    split
    · next hyes => exact elseNearest_attach yes elseLoc no hyes hs hno
    · next hyes => exact ⟨Bool.not_eq_true _ ▸ hyes, hs, hno⟩
  | ifElse loc left condition right yes loc' no', elseLoc, no, h, hs, hno => by
    rw [attach]
    exact ⟨hs.1, hs.2.1, elseNearest_attach no' elseLoc no h hs.2.2 hno⟩
  | whileLoop loc left condition right body, elseLoc, no, h, hs, hno => by
    rw [attach]
    exact elseNearest_attach body elseLoc no h hs hno
  | forLoop loc left clauses right body, elseLoc, no, h, hs, hno => by
    rw [attach]
    exact elseNearest_attach body elseLoc no h hs hno

/-- The derivation of the same text in which every else branch belongs to the nearest conditional
statement. -/
def nearest {part : Part} : Code part → Code part
  | ifElse loc left condition right yes elseLoc no =>
    if yes.nearest.isOpen then
      ifThen loc left condition right (yes.nearest.attach elseLoc no.nearest)
    else ifElse loc left condition right yes.nearest elseLoc no.nearest
  | ifThen loc left condition right yes => ifThen loc left condition right yes.nearest
  | whileLoop loc left condition right body => whileLoop loc left condition right body.nearest
  | forLoop loc left clauses right body => forLoop loc left clauses right body.nearest
  | block opening items closing => block opening items.nearest closing
  | statement s => statement s.nearest
  | one item => one item.nearest
  | more items item => more items.nearest item.nearest
  | returned loc value semicolon => returned loc value semicolon
  | emptyBlock opening closing => emptyBlock opening closing
  | simple s => simple s
  | declaration d => declaration d

@[simp] theorem tokens_nearest {part : Part} (c : Code part) : c.nearest.tokens = c.tokens := by
  induction c with
  | ifElse loc left condition right yes elseLoc no ihy ihn =>
    rw [nearest]
    split
    · next hyes => simp [tokens, tokens_attach _ elseLoc no.nearest hyes, ihy, ihn]
    · simp [tokens, ihy, ihn]
  | ifThen loc left condition right yes ih => simp [nearest, tokens, ih]
  | whileLoop loc left condition right body ih => simp [nearest, tokens, ih]
  | forLoop loc left clauses right body ih => simp [nearest, tokens, ih]
  | block opening items closing ih => simp [nearest, tokens, ih]
  | statement s ih => simp [nearest, tokens, ih]
  | one item ih => simp [nearest, tokens, ih]
  | more items item ihs ih => simp [nearest, tokens, ihs, ih]
  | returned | emptyBlock | simple | declaration => rfl

theorem elseNearest_nearest {part : Part} (c : Code part) : c.nearest.ElseNearest := by
  induction c with
  | ifElse loc left condition right yes elseLoc no ihy ihn =>
    rw [nearest]
    split
    · next hyes => exact elseNearest_attach _ elseLoc _ hyes ihy ihn
    · next hyes => exact ⟨Bool.not_eq_true _ ▸ hyes, ihy, ihn⟩
  | more items item ihs ih => exact ⟨ihs, ih⟩
  | ifThen _ _ _ _ _ ih | whileLoop _ _ _ _ _ ih | forLoop _ _ _ _ _ ih | block _ _ _ ih
  | statement _ ih | one _ ih => exact ih
  | returned | emptyBlock | simple | declaration => trivial

end Code

/-! ## Programs -/

namespace Items

def nearest (items : Items) : Items := items.map Code.nearest

theorem tokens_nearest (items : Items) : items.nearest.tokens = items.tokens := by
  cases items with
  | none => rfl
  | some code => exact code.tokens_nearest

theorem elseNearest_nearest (items : Items) : items.nearest.ElseNearest := by
  cases items with
  | none => trivial
  | some code => exact code.elseNearest_nearest

end Items

def Definition.nearest (f : Definition) : Definition := { f with body := f.body.nearest }

theorem Definition.tokens_nearest (f : Definition) : f.nearest.tokens = f.tokens := by
  simp [nearest, tokens, f.body.tokens_nearest]

namespace External

def nearest : External → External
  | function f => function f.nearest
  | typedFunction type loc f => typedFunction type loc f.nearest
  | declaration d => declaration d

theorem tokens_nearest (x : External) : x.nearest.tokens = x.tokens := by
  cases x with
  | function f | typedFunction _ _ f => simp [nearest, tokens, f.tokens_nearest]
  | declaration d => rfl

theorem elseNearest_nearest (x : External) : x.nearest.ElseNearest := by
  cases x with
  | function f | typedFunction _ _ f => exact f.body.elseNearest_nearest
  | declaration d => trivial

end External

namespace Externals

def nearest : Externals → Externals
  | one x => one x.nearest
  | more xs x => more xs.nearest x.nearest

theorem tokens_nearest (xs : Externals) : xs.nearest.tokens = xs.tokens := by
  induction xs with
  | one x => exact x.tokens_nearest
  | more xs x ih => simp [nearest, tokens, ih, x.tokens_nearest]

theorem elseNearest_nearest (xs : Externals) : xs.nearest.ElseNearest := by
  induction xs with
  | one x => exact x.elseNearest_nearest
  | more xs x ih => exact ⟨ih, x.elseNearest_nearest⟩

end Externals

namespace Program

/-- The derivation of the same program in which every else branch belongs to the nearest conditional
statement. -/
def nearest (p : Program) : Program := p.map Externals.nearest

theorem tokens_nearest (p : Program) : p.nearest.tokens = p.tokens := by
  cases p with
  | none => rfl
  | some xs => exact xs.tokens_nearest

theorem elseNearest_nearest (p : Program) : p.nearest.ElseNearest := by
  cases p with
  | none => trivial
  | some xs => exact xs.elseNearest_nearest

theorem exists_elseNearest (p : Program) : ∃ q : Program, q.tokens = p.tokens ∧ q.ElseNearest :=
  ⟨p.nearest, p.tokens_nearest, p.elseNearest_nearest⟩

end Program

end MiniC
