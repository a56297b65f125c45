import Mathlib.Data.List.Induction
import MiniC.Proofs.Effect
import MiniC.Proofs.Scoping
import MiniC.Proofs.Symbol.Typed

/-!
# Undeclared names are those without a visible declaration

`Analyzer.Tracks events a` ties the state behind the events to their scopes : the names that a scope
of the table holds with a type are those that a declaration in the scope gives it, and for one that
it holds without a type a use was reported there. Such a name is held by no scope further out, since
a use makes a symbol only for a name that no scope holds (`Analyzer.Tracks.outermost`).

`Scopes` is what one event does to the names of a table, `Analyzer.Tracks.step` the invariant behind
one event and `Analyzer.tracks_of_after` behind a whole stream. The main statement is
`Analyzer.undeclared_iff_not_visible`.
-/

namespace MiniC

open SymbolTable

/-- What a rule does to the names that the scopes of a table hold. -/
structure Scopes (r : Rule) (t u : SymbolTable) : Prop where
  wellFormed : u.WellFormed
  depth : u.depth = r.depthBehind t.depth
  typed : ∀ name d, u.Holds true name d ↔
    (r.declares = some name ∧ d = t.depth ∨ t.Holds true name d) ∧ d ≤ u.depth
  /-- A name without a type comes from a use that finds nothing, and goes with a declaration. -/
  untyped : ∀ name d, u.Holds false name d ↔
    (r = .identifier name ∧ t.lookup? name = none ∧ d = t.depth ∨ t.Holds false name d) ∧
      ¬(r.declares = some name ∧ d = t.depth) ∧ d ≤ u.depth

namespace Scopes

variable {t u : SymbolTable} {r : Rule} {name : String}

/-- A rule that names nothing keeps the names of the scopes that stay open. -/
theorem of_holds (hr : r.declares = none) (hn : ∀ n, r ≠ .identifier n) (hw : u.WellFormed)
    (hd : u.depth = r.depthBehind t.depth)
    (hh : ∀ typed n d, u.Holds typed n d ↔ t.Holds typed n d ∧ d ≤ u.depth) : Scopes r t u := by
  refine ⟨hw, hd, fun n d => ?_, fun n d => ?_⟩
  · rw [hh, hr]
    simp
  · rw [hh, hr]
    simp [hn n]

theorem openScope (h : t.WellFormed) : Scopes .openScope t t.openScope := by
  refine of_holds rfl (by simp) h.openScope rfl fun typed n d => ?_
  rw [holds_openScope]
  refine ⟨fun hh => ⟨hh, ?_⟩, And.left⟩
  exact Nat.le_succ_of_le (h.scope_le_of_holds hh)

theorem closeScope (h : t.WellFormed) (hr : r.declares = none) (hn : ∀ n, r ≠ .identifier n)
    (hd : r.depthBehind t.depth = t.depth - 1) : Scopes r t t.closeScope := by
  have hdepth : t.closeScope.depth = t.depth - 1 := by
    rcases Nat.eq_zero_or_pos t.depth with hz | hz
    · rw [closeScope_of_depth_eq_zero hz, hz]
    · exact depth_closeScope hz
  refine of_holds hr hn h.closeScope (hdepth.trans hd.symm) fun typed n d => ?_
  rw [holds_closeScope h, hdepth]

theorem declare (h : t.WellFormed) (hr : r.declares = some name) (hw : u.WellFormed)
    (hd : u.depth = r.depthBehind t.depth)
    (hh : ∀ typed n d, u.Holds typed n d ↔
      if n = name ∧ d = t.depth then typed = true else t.Holds typed n d) : Scopes r t u := by
  have hle : t.depth ≤ u.depth := hd ▸ Rule.le_depthBehind hr t.depth
  have hn : ∀ n, r ≠ .identifier n := by
    rintro n rfl
    cases hr
  have hin : ∀ {typed n d}, t.Holds typed n d → d ≤ u.depth := fun hold =>
    Nat.le_trans (h.scope_le_of_holds hold) hle
  refine ⟨hw, hd, fun n d => ?_, fun n d => ?_⟩
  · rw [hh, hr, Option.some.injEq, eq_comm (a := name)]
    split
    · next he => simp [he, hle]
    · next he =>
      rw [or_iff_right he]
      exact ⟨fun hold => ⟨hold, hin hold⟩, And.left⟩
  · rw [hh, hr, Option.some.injEq, eq_comm (a := name)]
    split
    · next he => simp [he]
    · next he =>
      simp only [hn n, false_and, false_or, he, not_false_eq_true, true_and]
      exact ⟨fun hold => ⟨hold, hin hold⟩, And.left⟩

theorem resolve (h : t.WellFormed) (name : String) (line : Nat) :
    Scopes (.identifier name) t (t.resolve name line).2 := by
  refine ⟨h.resolve line name, depth_resolve line t name, fun n d => ?_, fun n d => ?_⟩
  · rw [holds_resolve, depth_resolve]
    simp only [Rule.declares, reduceCtorEq, false_and, false_or, and_false, or_false]
    exact ⟨fun hold => ⟨hold, h.scope_le_of_holds hold⟩, And.left⟩
  · rw [holds_resolve, depth_resolve]
    simp only [Rule.declares, reduceCtorEq, false_and, not_false_eq_true, true_and,
      Rule.identifier.injEq]
    constructor
    · rintro (hold | ⟨rfl, rfl, hl⟩)
      · exact ⟨.inr hold, h.scope_le_of_holds hold⟩
      · exact ⟨.inl ⟨rfl, hl, rfl⟩, Nat.le_refl _⟩
    · rintro ⟨⟨rfl, hl, rfl⟩ | hold, -⟩
      · exact .inr ⟨rfl, rfl, hl⟩
      · exact .inl hold

/-- What a scope holds behind a rule it held before, or it is the current one. -/
theorem holds (h : Scopes r t u) {typed : Bool} {d : Nat} (hh : u.Holds typed name d) :
    d = t.depth ∨ t.Holds typed name d := by
  cases typed with
  | true =>
    obtain ⟨⟨-, hd⟩ | hh, -⟩ := (h.typed name d).1 hh
    · exact .inl hd
    · exact .inr hh
  | false =>
    obtain ⟨⟨-, -, hd⟩ | hh, -⟩ := (h.untyped name d).1 hh
    · exact .inl hd
    · exact .inr hh

end Scopes

namespace Analyzer

variable {a b z : Analyzer} {events : List Event} {event : Event} {name : String} {loc : Location}

theorem Touches.scopes {line : Nat} {r : Rule} {u : SymbolTable} (ht : Touches a line r u)
    (h : a.symbols.WellFormed) : Scopes r a.symbols u := by
  have hsame : ∀ {r : Rule} {u : SymbolTable}, r.declares = none → (∀ n, r ≠ .identifier n) →
      u.WellFormed → r.depthBehind a.symbols.depth = a.symbols.depth →
      u.depth = a.symbols.depth → (∀ typed n d, u.Holds typed n d ↔ a.symbols.Holds typed n d) →
      Scopes r a.symbols u := by
    intro r u hr hn hw hd hu hh
    refine .of_holds hr hn hw (hu.trans hd.symm) fun typed n d => ?_
    rw [hh, hu]
    exact ⟨fun hold => ⟨hold, h.scope_le_of_holds hold⟩, And.left⟩
  cases ht with
  | openScope => exact .openScope h
  | closeScope => exact .closeScope h rfl (by simp) rfl
  | functionDefinition name typed => exact .closeScope h rfl (by simp) rfl
  | functionDeclarator name typed type =>
    refine .declare h rfl (h.declare .function type none line name).openScope ?_ ?_
    · exact congrArg Nat.succ (depth_declare .function type none line a.symbols name)
    · intro typed n d
      rw [holds_openScope, holds_declare h]
  | parameter name type | declTarget name | declarator name =>
    exact .declare h rfl (h.declare _ _ _ _ _) (depth_declare ..) fun _ _ _ => holds_declare h ..
  | identifier name => exact .resolve h name line
  | assign op ho hi value =>
    exact hsame rfl (by simp) (h.modify (keeps_assigned value) _) rfl rfl
      fun _ _ _ => holds_assign _ value
  | initDeclarator name hp value =>
    exact hsame rfl (by simp) (h.modify (keeps_assigned value) _) rfl rfl
      fun _ _ _ => holds_assign _ value
  | idle hr =>
    obtain ⟨hd, hn, hdepth⟩ := Rule.idle hr
    exact hsame hd hn h (hdepth _) rfl fun _ _ _ => Iff.rfl

/-! ## A use of a name -/

/-- The event is a use of the name, and is reported behind the events before it. -/
def Reported (name : String) (before : List Event) (event : Event) : Prop :=
  event.rule = .identifier name ∧ ∃ a b, start.after before = .ok a ∧ a.apply event = .ok b ∧
    b.diagnostics = a.diagnostics ++ [⟨event.location.line, .undeclared name⟩]

/-- The latest subtree names a symbol of the name that has a type. -/
def NamesTyped (a : Analyzer) (name : String) : Prop :=
  ∃ operand rest id symbol, a.operands = operand :: rest ∧ operand.symbol = some id ∧
    a.symbols.get? id = some symbol ∧ symbol.name = name ∧ symbol.isTyped = true

theorem diagnostics_identifier (a : Analyzer) (name : String) (line : Nat) :
    (a.identifier name line).diagnostics =
      if !(a.symbols.resolve name line).1.inherited &&
          !(a.symbols.resolve name line).2.hasType (a.symbols.resolve name line).1.id then
        a.diagnostics ++ [⟨line, .undeclared name⟩] else a.diagnostics := by
  rw [identifier_eq]
  exact apply_ite diagnostics _ _ _

/-- A use of a name that no scope holds is an error. -/
theorem diagnostics_identifier_of_not_lookup? (hl : a.symbols.lookup? name = none) (line : Nat) :
    (a.identifier name line).diagnostics = a.diagnostics ++ [⟨line, .undeclared name⟩] := by
  rw [diagnostics_identifier, resolve_of_not_lookup? line hl, if_pos]
  simp [hasType_insert_size]

theorem symbols_identifier (a : Analyzer) (name : String) (line : Nat) :
    (a.identifier name line).symbols = (a.symbols.resolve name line).2 := by
  rw [identifier_eq]
  exact symbols_reportIf ..

theorem operands_identifier (a : Analyzer) (name : String) (line : Nat) :
    ∃ type value, (a.identifier name line).operands =
      ⟨type, value, some (a.symbols.resolve name line).1.id⟩ :: a.operands := by
  rw [identifier_eq]
  refine ⟨_, _, congrArg (List.cons _) ?_⟩
  exact (stacks_reportIf ..).2

/-- A use is reported or adds no diagnostics. -/
theorem reported_or_eq (ha : start.after events = .ok a) (hr : event.rule = .identifier name)
    (hb : a.apply event = .ok b) : Reported name events event ∨ b.diagnostics = a.diagnostics := by
  obtain ⟨rule, loc⟩ := event
  obtain rfl : rule = .identifier name := hr
  have hd : b.diagnostics = _ := Except.ok.inj hb ▸ diagnostics_identifier a name loc.line
  split at hd
  · exact .inl ⟨rfl, a, b, ha, hb, hd⟩
  · exact .inr hd

/-- A use of a name that no scope holds is reported. -/
theorem reported_of_lookup?_eq_none (ha : start.after events = .ok a)
    (hr : event.rule = .identifier name) (hl : a.symbols.lookup? name = none) :
    Reported name events event := by
  obtain ⟨rule, loc⟩ := event
  obtain rfl : rule = .identifier name := hr
  exact ⟨rfl, a, _, ha, rfl, diagnostics_identifier_of_not_lookup? hl loc.line⟩

/-! ## The invariant -/

/-- The names that the scopes of the table hold are those that the events gave them. -/
structure Tracks (events : List Event) (a : Analyzer) : Prop where
  wellFormed : a.symbols.WellFormed
  depth : a.symbols.depth = scopeDepth events
  declared : ∀ name d, a.symbols.Holds true name d ↔ StillOpen (Declares name) events d
  used : ∀ name d, a.symbols.Holds false name d → StillOpen (Reported name) events d
  outermost : ∀ name d, a.symbols.Holds false name d →
    ∀ typed d', a.symbols.Holds typed name d' → d ≤ d'

theorem tracks_start : Tracks [] start where
  wellFormed := wellFormed_empty
  depth := rfl
  declared _ _ := iff_of_false not_holds_empty not_stillOpen_nil
  used _ _ h := (not_holds_empty h).elim
  outermost _ _ h := (not_holds_empty h).elim

theorem Tracks.step (h : Tracks events a) (ha : start.after events = .ok a)
    (hb : a.apply event = .ok b) : Tracks (events ++ [event]) b := by
  have hs := (apply_touches hb).scopes h.wellFormed
  have hdepth : b.symbols.depth = scopeDepth (events ++ [event]) := by
    rw [hs.depth, h.depth, scopeDepth_snoc]
  refine ⟨hs.wellFormed, hdepth, fun name d => ?_, fun name d hu => ?_,
    fun name d hu typed d' hh => ?_⟩
  · rw [hs.typed, h.declared, stillOpen_snoc, hdepth, h.depth]
    rfl
  · obtain ⟨hu, -, hle⟩ := (hs.untyped name d).1 hu
    refine stillOpen_snoc.2 ⟨?_, hdepth ▸ hle⟩
    rcases hu with ⟨hr, hl, rfl⟩ | hu
    · exact .inl ⟨reported_of_lookup?_eq_none ha hr hl, h.depth⟩
    · exact .inr (h.used name d hu)
  · obtain ⟨hu, -⟩ := (hs.untyped name d).1 hu
    have hh := hs.holds hh
    rcases hu with ⟨hr, hl, rfl⟩ | hu
    · -- the name was held by no scope before
      rcases hh with rfl | hh
      · exact Nat.le_refl _
      · exact ((lookup?_eq_none_iff_not_holds h.wellFormed).1 hl _ _ hh).elim
    · rcases hh with rfl | hh
      · exact h.wellFormed.scope_le_of_holds hu
      · exact h.outermost name d hu typed d' hh

theorem tracks_of_after (h : start.after events = .ok a) : Tracks events a := by
  induction events using List.reverseRecOn generalizing a with
  | nil =>
    obtain rfl := Except.ok.inj h
    exact tracks_start
  | append_singleton events event ih =>
    obtain ⟨b, hb, hlast⟩ := exists_of_after_snoc h
    exact (ih hb).step hb hlast

/-! ## Uses with and without a visible declaration -/

/-- A use of a name with a visible declaration finds a symbol with a type. -/
theorem Tracks.lookup?_of_visible (h : Tracks events a) (hv : Visible events name) :
    ∃ id d, a.symbols.lookup? name = some id ∧ a.symbols.Binds name d id ∧
      a.symbols.hasType id = true := by
  obtain ⟨d, hd⟩ := hv
  have ht := (h.declared name d).2 hd
  cases hl : a.symbols.lookup? name with
  | none => exact ((lookup?_eq_none_iff_not_holds h.wellFormed).1 hl true d ht).elim
  | some id =>
    obtain ⟨e, hb, hmax⟩ := (lookup?_eq_some_iff h.wellFormed).1 hl
    refine ⟨id, e, rfl, hb, ?_⟩
    by_contra hn
    rw [Bool.not_eq_true] at hn
    -- an untyped symbol is the outermost of its name, and this one is the innermost
    have hle : e ≤ d := h.outermost name e ⟨id, hb, hn⟩ true d ht
    obtain ⟨j, hj, htj⟩ := ht
    obtain rfl := Nat.le_antisymm hle (hmax d j hj)
    exact Bool.false_ne_true (hn.symm.trans (h.wellFormed.hasType_of_holds hb ⟨j, hj, htj⟩))

theorem Tracks.identifier_of_visible (h : Tracks events a) (hv : Visible events name)
    (line : Nat) : (a.identifier name line).diagnostics = a.diagnostics ∧
      (a.identifier name line).NamesTyped name := by
  obtain ⟨id, d, hl, hb, ht⟩ := h.lookup?_of_visible hv
  have hr := resolve_of_lookup? line hl
  constructor
  · rw [diagnostics_identifier, hr, ht, Bool.not_true, Bool.and_false]
    rfl
  · obtain ⟨s, hs, -, hn, -⟩ := hb
    have hst : s.isTyped = true := by simpa [hasType, hs] using ht
    obtain ⟨type, value, ho⟩ := operands_identifier a name line
    refine ⟨⟨type, value, some id⟩, a.operands, id, s, ?_, rfl, ?_, hn, hst⟩
    · rw [ho, hr]
    · rw [symbols_identifier, hr, hs]

/-- A use of a name without a visible declaration is reported, or one in a scope around it was. -/
theorem Tracks.reported_of_not_visible (h : Tracks events a) (ha : start.after events = .ok a)
    (hv : ¬Visible events name) (loc : Location) :
    Reported name events ⟨.identifier name, loc⟩ ∨
      ∃ d < scopeDepth events, StillOpen (Reported name) events d := by
  cases hl : a.symbols.lookup? name with
  | none => exact .inl (reported_of_lookup?_eq_none ha rfl hl)
  | some id =>
    obtain ⟨d, hb, -⟩ := (lookup?_eq_some_iff h.wellFormed).1 hl
    have hn : a.symbols.hasType id = false := by
      by_contra ht
      rw [Bool.not_eq_false] at ht
      exact hv ⟨d, (h.declared name d).1 ⟨id, hb, ht⟩⟩
    rcases Nat.lt_or_ge d a.symbols.depth with hlt | hge
    · exact .inr ⟨d, h.depth ▸ hlt, h.used name d ⟨id, hb, hn⟩⟩
    · -- a symbol of the current scope is not inherited
      refine .inl ⟨rfl, a, _, ha, rfl, ?_⟩
      obtain ⟨s, hs, -, -, rfl⟩ := hb
      rw [diagnostics_identifier, resolve_of_lookup? loc.line hl, if_pos]
      simp [hn, hs, hge]

/-! ## The diagnostics of a stream -/

/-- Some use of a name was reported as undeclared. -/
def HasUndeclared (a : Analyzer) : Prop :=
  ∃ d ∈ a.diagnostics, ∃ name, d.problem = .undeclared name

theorem diagnostics_prefix_of_after (h : a.after events = .ok z) :
    a.diagnostics <+: z.diagnostics := by
  induction events generalizing a with
  | nil =>
    obtain rfl := Except.ok.inj h
    exact List.prefix_rfl
  | cons event events ih =>
    obtain ⟨b, hb, hz⟩ := exists_of_after_cons h
    obtain ⟨more, hm, -⟩ := apply_adds hb
    exact (hm ▸ List.prefix_append a.diagnostics more).trans (ih hz)

theorem hasUndeclared_of_reported {before mid : List Event}
    (h : start.after (before ++ event :: mid) = .ok z) (hr : Reported name before event) :
    z.HasUndeclared := by
  obtain ⟨-, a, b, ha, hb, hd⟩ := hr
  obtain ⟨a', ha', hz⟩ := exists_of_after_append h
  obtain rfl := Except.ok.inj (ha.symm.trans ha')
  obtain ⟨b', hb', hz⟩ := exists_of_after_cons hz
  obtain rfl := Except.ok.inj (hb.symm.trans hb')
  refine ⟨⟨event.location.line, .undeclared name⟩, (diagnostics_prefix_of_after hz).subset ?_,
    name, rfl⟩
  simp [hd]

/-- Only a use of a name that is reported adds to the undeclared names. -/
theorem exists_reported (h : start.after events = .ok z) (hu : z.HasUndeclared) :
    ∃ before name event mid, events = before ++ event :: mid ∧ Reported name before event := by
  induction events using List.reverseRecOn generalizing z with
  | nil =>
    obtain rfl := Except.ok.inj h
    obtain ⟨d, hd, -⟩ := hu
    cases hd
  | append_singleton events event ih =>
    obtain ⟨a, ha, hb⟩ := exists_of_after_snoc h
    obtain ⟨more, hm, hrep⟩ := apply_adds hb
    obtain ⟨d, hd, name, hp⟩ := hu
    rw [hm] at hd
    rcases List.mem_append.1 hd with hd | hd
    · obtain ⟨before, n, e, mid, rfl, hr⟩ := ih ha ⟨d, hd, name, hp⟩
      exact ⟨before, n, e, mid ++ [event], by simp, hr⟩
    · have hrule : event.rule = .identifier name := (hp ▸ (hrep d hd).2).eq_identifier
      refine ⟨events, name, event, [], rfl, ?_⟩
      rcases reported_or_eq ha hrule hb with hr | he
      · exact hr
      · rw [he, List.self_eq_append_right] at hm
        rw [hm] at hd
        cases hd

theorem exists_tracks {before mid : List Event} (h : start.after (before ++ mid) = .ok z) :
    ∃ a, start.after before = .ok a ∧ Tracks before a := by
  obtain ⟨a, ha, -⟩ := exists_of_after_append h
  exact ⟨a, ha, tracks_of_after ha⟩

/-- A use without a visible declaration has led to a report. -/
theorem hasUndeclared_of_not_visible {before mid : List Event}
    (h : start.after (before ++ ⟨.identifier name, loc⟩ :: mid) = .ok z)
    (hv : ¬Visible before name) : z.HasUndeclared := by
  obtain ⟨a, ha, ht⟩ := exists_tracks h
  rcases ht.reported_of_not_visible ha hv loc with hr | ⟨d, -, pre, e, rest, rfl, hr, -⟩
  · exact hasUndeclared_of_reported h hr
  · rw [List.append_assoc, List.cons_append] at h
    exact hasUndeclared_of_reported h hr

/-- A use that is reported has no visible declaration. -/
theorem not_visible_of_reported {before : List Event} (hr : Reported name before event) :
    ¬Visible before name := by
  intro hv
  obtain ⟨rule, loc⟩ := event
  obtain ⟨rfl, a, b, ha, hb, hd⟩ := hr
  obtain ⟨hsame, -⟩ := (tracks_of_after ha).identifier_of_visible hv loc.line
  rw [Except.ok.inj hb] at hsame
  simp [hd] at hsame

/-- No name is reported as undeclared if and only if every use of a name has a visible declaration.
A use with one is not reported and names a symbol with a type; a use without one is reported, or one
in a scope around it was, which is still open. -/
theorem undeclared_iff_not_visible (h : start.after events = .ok z) :
    (¬z.HasUndeclared ↔ ∀ before name loc mid,
      events = before ++ ⟨.identifier name, loc⟩ :: mid → Visible before name) ∧
    ∀ before name loc mid, events = before ++ ⟨.identifier name, loc⟩ :: mid →
      ∃ a b, start.after before = .ok a ∧ a.apply ⟨.identifier name, loc⟩ = .ok b ∧
        (Visible before name → b.diagnostics = a.diagnostics ∧ b.NamesTyped name) ∧
        (¬Visible before name → Reported name before ⟨.identifier name, loc⟩ ∨
          ∃ d < scopeDepth before, StillOpen (Reported name) before d) := by
  refine ⟨⟨fun hno before name loc mid he => ?_, fun hall hu => ?_⟩,
    fun before name loc mid he => ?_⟩
  · by_contra hv
    exact hno (hasUndeclared_of_not_visible (he ▸ h) hv)
  · obtain ⟨before, name, ⟨rule, loc⟩, mid, he, hr⟩ := exists_reported h hu
    obtain rfl : rule = .identifier name := hr.1
    exact not_visible_of_reported hr (hall before name loc mid he)
  · obtain ⟨a, ha, ht⟩ := exists_tracks (he ▸ h)
    exact ⟨a, _, ha, rfl, fun hv => ht.identifier_of_visible hv loc.line,
      fun hv => ht.reported_of_not_visible ha hv loc⟩

/-- After the declaration of another name, a use is reported. -/
theorem hasUndeclared_of_use_of_another_name :
    ∃ z, start.after [⟨.declarator "x", ⟨1, 1⟩⟩, ⟨.identifier "y", ⟨1, 8⟩⟩] = .ok z ∧
      z.HasUndeclared := by
  refine ⟨_, rfl, ?_⟩
  by_contra hno
  obtain ⟨d, hd⟩ := (undeclared_iff_not_visible rfl).1.1 hno [⟨.declarator "x", ⟨1, 1⟩⟩] "y" ⟨1, 8⟩
    [] rfl
  have hd : StillOpen (Declares "y") ([] ++ [⟨.declarator "x", ⟨1, 1⟩⟩]) d := hd
  obtain ⟨⟨hx, -⟩ | hn, -⟩ := stillOpen_snoc.1 hd
  · simp [Declares, Rule.declares] at hx
  · exact not_stillOpen_nil hn

end Analyzer

end MiniC
