import MiniC.Proofs.Token.Splitting

/-!
# Tokens stand one behind the other

The tokens of a text start at places that follow each other (`tokenize_ordered`), so that a token is
known by its place.
-/

namespace MiniC

namespace Location

/-- One place stands in front of the other. -/
def Precedes (l m : Location) : Prop := l.line < m.line ∨ l.line = m.line ∧ l.column < m.column

variable {l m n : Location}

theorem Precedes.trans (h : l.Precedes m) (h' : m.Precedes n) : l.Precedes n := by
  unfold Precedes at *
  omega

theorem Precedes.ne (h : l.Precedes m) : l ≠ m := by
  rintro rfl
  unfold Precedes at h
  omega

theorem Precedes.line_le (h : l.Precedes m) : l.line ≤ m.line := by
  unfold Precedes at h
  omega

theorem precedes_advance (l : Location) (c : Char) : l.Precedes (l.advance c) := by
  unfold advance
  split
  · exact .inl (Nat.lt_succ_self _)
  · exact .inr ⟨rfl, Nat.lt_succ_self _⟩

theorem Precedes.after (h : l.Precedes m) (text : List Char) : l.Precedes (m.after text) := by
  induction text generalizing m with
  | nil => exact h
  | cons c text ih => exact ih (h.trans (precedes_advance m c))

/-- A text that is not empty ends behind its start. -/
theorem precedes_after (l : Location) {text : List Char} (h : text ≠ []) :
    l.Precedes (l.after text) := by
  obtain ⟨c, text, rfl⟩ := List.exists_cons_of_ne_nil h
  exact (precedes_advance l c).after text

end Location

/-- Every token stands in front of those behind it. -/
def TokenList.Ordered (ts : TokenList) : Prop :=
  ts.tokens.Pairwise fun t u => t.location.Precedes u.location

/-- What stands in front of a text stands in front of its tokens. -/
theorem tokensFrom_ordered {loc : Location} {cs : List Char} {ts : TokenList}
    (h : tokensFrom loc cs = .ok ts) :
    ts.Ordered ∧ ∀ place, Location.Precedes place loc →
      ∀ t ∈ ts.tokens, place.Precedes t.location := by
  fun_induction tokensFrom loc cs generalizing ts with
  | case1 | case3 => cases h
  | case2 =>
    obtain rfl := Except.ok.inj h
    exact ⟨.nil, fun _ _ _ ht => (List.not_mem_nil ht).elim⟩
  | case4 loc cs place c r hg l hs ih =>
    cases hts : tokensFrom (place.after l.spelling) l.rest with
    | error e =>
      rw [hts] at h
      cases h
    | ok ts =>
      rw [hts] at h
      obtain rfl := Except.ok.inj h
      obtain ⟨ho, hbehind⟩ := ih hts
      obtain ⟨gap, -, rfl, -⟩ := Gap.skip_covers hg
      have hplace := Location.precedes_after (loc.after gap) (Lexeme.scan_splits hs).2
      refine ⟨List.pairwise_cons.2 ⟨hbehind _ hplace, ho⟩, fun before hb t ht => ?_⟩
      have hfirst := hb.after gap
      rcases List.mem_cons.1 ht with rfl | ht
      · exact hfirst
      · exact hfirst.trans (hbehind _ hplace t ht)

/-- The tokens of a source stand one behind the other. -/
theorem tokenize_ordered {source : String} {ts : TokenList} (h : tokenize source = .ok ts) :
    ts.Ordered := (tokensFrom_ordered h).1

/-- No two tokens stand at one place. -/
theorem TokenList.Ordered.location_ne {ts : TokenList} (h : ts.Ordered) {front back : List Token}
    {t : Token} (ht : ts.tokens = front ++ t :: back) :
    ∀ u ∈ front ++ back, u.location ≠ t.location := by
  rw [Ordered, ht, List.pairwise_append, List.pairwise_cons] at h
  obtain ⟨-, ⟨hback, -⟩, hfront⟩ := h
  intro u hu
  rcases List.mem_append.1 hu with hu | hu
  · exact (hfront u hu t List.mem_cons_self).ne
  · exact (hback u hu).ne.symm

end MiniC
