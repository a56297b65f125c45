import MiniC.Analysis.Operand

/-!
# The type of an operand and that of its value

The type and the value of an operand are found apart from each other. An operand is `Operand.Sound`
when its value, if it is known, is of its type. What the operators make of sound operands is sound
(`Operand.sound_binary`, `Operand.sound_unary`, `Operand.sound_postfixed`), and of operands with a
type they make one with a type. A conditional expression needs the types of both branches for that
(`Operand.sound_conditional`) : where one has none, its value is not converted.
-/

namespace MiniC

/-! ## The type of a folded value -/

namespace Value

theorem type_unary (op : UnaryOp) (v : Value) : (unary op v).type =
    match op with
    | .not | .bitNot => .int
    | .plus | .neg => .promote v.type .int
    | .preInc | .preDec => v.type := by
  cases op <;> cases v <;> rfl

theorem type_intBinary {op : BinaryOp} {a b : Int32} {v : Value} (h : intBinary? op a b = some v) :
    v.type = .int := by
  cases op <;> simp only [intBinary?] at h
  case div | mod =>
    split at h
    · obtain rfl := Option.some.inj h
      rfl
    · cases h
  all_goals
    obtain rfl := Option.some.inj h
    rfl

theorem type_floatBinary {op : BinaryOp} {a b : Float32} {v : Value}
    (h : floatBinary? op a b = some v) :
    v.type = if op.isComparison then .int else .float := by
  cases op <;> simp only [floatBinary?] at h
  case div =>
    split at h
    · cases h
    · obtain rfl := Option.some.inj h
      rfl
  case mod => cases h
  all_goals
    obtain rfl := Option.some.inj h
    rfl

/-- A folded value is of the type in which its operands meet, or answers a comparison. -/
theorem type_binary {op : BinaryOp} {l r v : Value} (h : binary? op l r = some v) :
    v.type = if op.isComparison then .int else .promote l.type r.type := by
  unfold binary? at h
  split at h
  · next hp => rw [hp, type_floatBinary h]
  · next hp =>
    have hi : DataType.promote l.type r.type = .int := by
      unfold DataType.promote at hp ⊢
      split
      · next hf => exact (hp (if_pos hf)).elim
      · rfl
    rw [hi, type_intBinary h, ite_self]

end Value

/-- Operands meet in a type that is not `void`. -/
theorem DataType.promote_ne_void (s t : DataType) : promote s t ≠ .void := by
  unfold promote
  split <;> decide

/-! ## Sound operands -/

namespace Operand

/-- The value, if it is known, is of the type of the operand. -/
def Sound (o : Operand) : Prop := ∀ v, o.value = some v → o.type = some v.type

variable {o l r condition yes no : Operand}

theorem sound_of_value_eq_none (h : o.value = none) : o.Sound := by
  simp [Sound, h]

theorem sound_constant (v : Value) : (constant v).Sound := by
  rintro _ ⟨⟩
  rfl

theorem isSome_promoted (hl : l.type.isSome) : (promoted l r).isSome := by
  obtain ⟨s, hs⟩ := Option.isSome_iff_exists.1 hl
  unfold promoted
  cases r.type <;> simp [hs]

theorem isSome_type_binary (hl : l.type.isSome) (op : BinaryOp) : (binary op l r).type.isSome := by
  unfold binary
  split
  · rfl
  · exact isSome_promoted hl

theorem sound_binary (hl : l.Sound) (hr : r.Sound) (op : BinaryOp) : (binary op l r).Sound := by
  intro v hv
  have hf : folded op l r = some v := hv
  unfold folded at hf
  split at hf
  · next x y hx hy =>
    simp only [binary, promoted, hl x hx, hr y hy, Value.type_binary hf]
    split <;> rfl
  · cases hf

theorem isSome_type_unary (ho : o.type.isSome) (op : UnaryOp) : (unary op o).type.isSome := by
  cases op <;> simp [unary, ho]

theorem sound_unary (ho : o.Sound) (op : UnaryOp) : (unary op o).Sound := by
  intro w hw
  obtain ⟨v, hv, rfl⟩ := Option.map_eq_some_iff.1 hw
  have ht := ho v hv
  rw [Value.type_unary]
  cases op <;> simp [unary, ht]

theorem sound_postfixed (ho : o.Sound) (op : PostfixOp) : (postfixed op o).Sound := by
  intro w hw
  obtain ⟨v, hv, rfl⟩ := Option.map_eq_some_iff.1 hw
  have ht : (postfixed op o).type = some v.type := ho v hv
  rw [Value.type_unary, ht]
  cases op <;> rfl

theorem isSome_type_conditional (hy : yes.type.isSome) (hn : no.type.isSome) :
    (conditional condition yes no).type.isSome := by
  obtain ⟨s, hs⟩ := Option.isSome_iff_exists.1 hy
  obtain ⟨t, ht⟩ := Option.isSome_iff_exists.1 hn
  simp only [conditional, hs, ht, Option.isSome_some]

/-- The value of either branch is converted to the type in which the branches meet. -/
theorem sound_conditional (hy : yes.type.isSome) (hn : no.type.isSome) :
    (conditional condition yes no).Sound := by
  obtain ⟨s, hs⟩ := Option.isSome_iff_exists.1 hy
  obtain ⟨t, ht⟩ := Option.isSome_iff_exists.1 hn
  intro w hw
  simp only [conditional, hs, ht, Option.map_eq_some_iff] at hw ⊢
  obtain ⟨v, -, rfl⟩ := hw
  rw [Value.type_convert v (DataType.promote_ne_void s t)]

/-- What is stored is converted to a type that is not `void`. -/
theorem sound_converted {type : DataType} (h : type ≠ .void) (value : Option Value) :
    Sound ⟨some type, value.map (·.convert type), none⟩ := by
  intro w hw
  obtain ⟨v, -, rfl⟩ := Option.map_eq_some_iff.1 hw
  rw [Value.type_convert v h]

end Operand

end MiniC
