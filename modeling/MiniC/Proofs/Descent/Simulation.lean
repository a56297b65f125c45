import MiniC.Grammar.Descent
import MiniC.Proofs.Grammar.Consumption

/-!
# Work that performs a run

`Performs ts p x r` : the work `x`, begun behind the progress `p`, ends; it never leaves the entries
of `ts`, completes the rules of the run `r` and ends as that does. There is one lemma for each
primitive of `Descent`, and `Performs.then` puts works that meet one goal each together.
-/

namespace MiniC

namespace TokenList

variable {ts : TokenList} {t : Token} {rest : List Token} {n : Nat}

/-- The tokens behind the first `n`. -/
def drop (ts : TokenList) (n : Nat) : TokenList := ⟨ts.tokens.drop n, ts.stop⟩

/-- The entry that a token list begins with. -/
def next (ts : TokenList) : Descent.Entry := ⟨ts.tokens.head?.map Token.kind, ts.place⟩

theorem length_drop (ts : TokenList) (n : Nat) :
    (ts.drop n).tokens.length = ts.tokens.length - n :=
  List.length_drop

theorem lt_length_of_drop (h : (ts.drop n).tokens = t :: rest) : n < ts.tokens.length := by
  have hl := length_drop ts n
  rw [h, List.length_cons] at hl
  omega

theorem drop_succ (h : (ts.drop n).tokens = t :: rest) : ts.drop (n + 1) = ⟨rest, ts.stop⟩ := by
  have hd : ts.tokens.drop n = t :: rest := h
  rw [drop, ← List.drop_drop, hd]
  rfl

theorem tokens_drop_succ (h : (ts.drop n).tokens = t :: rest) :
    (ts.drop (n + 1)).tokens = rest := by
  rw [drop_succ h]

theorem next_of_cons {ts : TokenList} (h : ts.tokens = t :: rest) :
    ts.next = ⟨some t.kind, t.location⟩ := by
  rw [next, place, h]
  rfl

theorem eq_cons_of_next {ts : TokenList} {kind : Token.Kind} (h : ts.next.kind = some kind) :
    ∃ loc rest, ts.tokens = ⟨kind, loc⟩ :: rest := by
  obtain ⟨_ | ⟨⟨kind', loc⟩, rest⟩, stop⟩ := ts
  · cases h
  · obtain rfl := Option.some.inj h
    exact ⟨loc, rest, rfl⟩

/-- The entry at a position is the one that the tokens from there on begin with. -/
theorem entries_of_le (h : n ≤ ts.tokens.length) : ts.entries[n]? = some (ts.drop n).next := by
  rcases Nat.lt_or_eq_of_le h with h | rfl
  · rw [entries, List.getElem?_append_left (by simpa using h), List.getElem?_map,
      List.getElem?_eq_getElem h, next, drop, place, List.drop_eq_getElem_cons h]
    rfl
  · rw [entries, List.getElem?_append_right (by simp), next, drop, place, List.drop_length]
    simp

/-- An entry further on is a token, or none. -/
theorem kind_entries (ts : TokenList) (n m : Nat) :
    ts.entries[n + m]?.bind Descent.Entry.kind = (ts.drop n).tokens[m]?.map Token.kind := by
  rw [drop, List.getElem?_drop, entries, List.getElem?_append, List.getElem?_map]
  split
  · cases ts.tokens[n + m]? <;> rfl
  · rename_i h
    rw [List.length_map, Nat.not_lt] at h
    rw [List.getElem?_eq_none h]
    cases n + m - _ <;> rfl

end TokenList

/-- The progress behind one more entry. -/
def Progress.next (p : Progress) : Progress :=
  { p with position := p.position + 1, visited := p.position :: p.visited }

/-- The progress with one more rule completed. -/
def Progress.told (p : Progress) (event : Event) : Progress :=
  { p with events := p.events ++ [event] }

namespace Descent

variable {ts : TokenList} {p q : Progress} {α β : Type}

/-! ## Outcomes -/

theorem outcome_get (p : Progress) : outcome get p = (.ok p, p) := rfl

theorem outcome_bind_of_ok {x : Descent α} {a : α} (k : α → Descent β)
    (h : outcome x p = (.ok a, q)) : outcome (x >>= k) p = outcome (k a) q := by
  simp only [outcome, ExceptT.run_bind, StateT.run_bind] at h ⊢
  rw [h]
  rfl

theorem outcome_bind_of_error {x : Descent α} {halt : Halt} (k : α → Descent β)
    (h : outcome x p = (.error halt, q)) :
    outcome (x >>= k) p = (.error halt, q) := by
  simp only [outcome, ExceptT.run_bind, StateT.run_bind] at h ⊢
  rw [h]
  rfl

/-- The position of a progress and all positions before it are those of entries. -/
structure InRange (ts : TokenList) (p : Progress) : Prop where
  position : p.position ≤ ts.tokens.length
  visited : ∀ n ∈ p.visited, n ≤ ts.tokens.length

namespace InRange

theorem told (hp : InRange ts p) (event : Event) : InRange ts (p.told event) :=
  ⟨hp.position, hp.visited⟩

theorem next (hp : InRange ts p) {t : Token} {rest : List Token}
    (h : (ts.drop p.position).tokens = t :: rest) : InRange ts p.next where
  position := TokenList.lt_length_of_drop h
  visited := List.forall_mem_cons.mpr ⟨hp.position, hp.visited⟩

theorem outcome_peek (hp : InRange ts p) :
    outcome (peek ts) p = (.ok (ts.drop p.position).next, p) := by
  refine (outcome_bind_of_ok _ (outcome_get p)).trans ?_
  rw [TokenList.entries_of_le hp.position]
  rfl

theorem outcome_previous (hp : InRange ts p) :
    outcome (previous ts) p = (.ok (ts.drop (p.position - 1)).next, p) := by
  refine (outcome_bind_of_ok _ (outcome_get p)).trans ?_
  rw [TokenList.entries_of_le (Nat.le_trans (Nat.sub_le ..) hp.position)]
  rfl

theorem outcome_advance (hp : InRange ts p) {t : Token} {rest : List Token}
    (h : (ts.drop p.position).tokens = t :: rest) :
    outcome (advance ts) p = (.ok (ts.drop p.position).next, p.next) := by
  refine (outcome_bind_of_ok _ hp.outcome_peek).trans ?_
  rw [TokenList.next_of_cons h]
  refine (outcome_bind_of_ok _ (rfl : outcome (modify _) p = (.ok (), p.next))).trans ?_
  rw [← TokenList.next_of_cons h]
  exact (hp.next h).outcome_previous

theorem outcome_fail (hp : InRange ts p) (what : Expectation) :
    outcome (fail (α := α) ts what) p =
      (.error (.syntaxError ⟨.unexpected what (ts.drop p.position).next.kind,
        (ts.drop p.position).next.location⟩), p) :=
  outcome_bind_of_ok _ hp.outcome_peek

end InRange

/-! ## Performing a run -/

/-- Work ends as a run does, at the progress `q` : the tokens behind it are left over, or it stands
in front of the entry that is wrong. -/
def EndsAs (ts : TokenList) (q : Progress) (answer : Except Halt Unit) :
    Except SyntaxError TokenList → Prop
  | .ok us => answer = .ok () ∧ us = ts.drop q.position
  | .error e => answer = .error (.syntaxError e) ∧ ∃ what, e =
      ⟨.unexpected what (ts.drop q.position).next.kind, (ts.drop q.position).next.location⟩

theorem EndsAs.result_of_ok {result : Except SyntaxError TokenList}
    (h : EndsAs ts q (.ok ()) result) : result = .ok (ts.drop q.position) := by
  cases result with
  | ok us => rw [h.2]
  | error e => cases h.1

theorem EndsAs.halt_of_error {halt : Halt} {result : Except SyntaxError TokenList}
    (h : EndsAs ts q (.error halt) result) : ∃ what, halt = .syntaxError
      ⟨.unexpected what (ts.drop q.position).next.kind, (ts.drop q.position).next.location⟩ := by
  cases result with
  | ok us => cases h.1
  | error e =>
    obtain ⟨hhalt, what, rfl⟩ := h
    exact ⟨what, Except.error.inj hhalt⟩

/-- Work that begins behind `p` performs a run. -/
def Performs (ts : TokenList) (p : Progress) (x : Descent Unit) (r : Run) : Prop :=
  ∃ answer q, outcome x p = (answer, q) ∧ InRange ts q ∧ p.position ≤ q.position ∧
    q.events = p.events ++ r.events ∧ EndsAs ts q answer r.result

variable {x : Descent Unit} {k : α → Descent Unit} {r : Run}

/-- The first work only finds something out. -/
theorem Performs.bind_same {y : Descent α} {a : α} (hy : outcome y p = (.ok a, p))
    (h : Performs ts p (k a) r) : Performs ts p (y >>= k) r := by
  rwa [Performs, outcome_bind_of_ok k hy]

/-- The first work goes behind a token. -/
theorem Performs.bind_next {y : Descent α} {a : α} (hy : outcome y p = (.ok a, p.next))
    (h : Performs ts p.next (k a) r) : Performs ts p (y >>= k) r := by
  obtain ⟨answer, q, ho, hq, hle, hev, hend⟩ := h
  exact ⟨answer, q, (outcome_bind_of_ok k hy).trans ho, hq, Nat.le_of_succ_le hle, hev, hend⟩

/-- Work that meets a goal goes on with the goals behind it. -/
theorem Performs.then {k : Unit → Descent Unit} {goal : Goal} {goals : List Goal}
    (hx : Performs ts p x (Goal.run [goal] (ts.drop p.position)))
    (hk : ∀ q, InRange ts q → p.position ≤ q.position →
      (goal.reads = true → p.position < q.position) →
      Performs ts q (k ()) (Goal.run goals (ts.drop q.position))) :
    Performs ts p (x >>= k) (Goal.run (goal :: goals) (ts.drop p.position)) := by
  obtain ⟨answer, q, ho, hq, hle, hev, hend⟩ := hx
  have happ := Goal.run_append [goal] goals (ts.drop p.position)
  rw [List.singleton_append, Run.andThen] at happ
  rw [happ]
  cases hr : (Goal.run [goal] (ts.drop p.position)).result with
  | ok us =>
    rw [hr] at hend
    obtain ⟨rfl, rfl⟩ := hend
    have hlt (hg : goal.reads = true) : p.position < q.position := by
      have hl := Goal.length_lt_of_run hr (by rw [List.any_cons, hg]; rfl)
      rw [TokenList.length_drop, TokenList.length_drop] at hl
      omega
    obtain ⟨answer', q', ho', hq', hle', hev', hend'⟩ := hk q hq hle hlt
    refine ⟨answer', q', (outcome_bind_of_ok k ho).trans ho', hq', Nat.le_trans hle hle', ?_,
      hend'⟩
    rw [hev', hev, List.append_assoc]
    rfl
  | error e =>
    rw [hr] at hend
    obtain ⟨rfl, hwhat⟩ := hend
    exact ⟨_, q, outcome_bind_of_error k ho, hq, hle, hev, rfl, hwhat⟩

variable {goals : List Goal}

theorem performs_pure (hp : InRange ts p) :
    Performs ts p (pure ()) (Goal.run [] (ts.drop p.position)) := by
  rw [Goal.run_nil]
  exact ⟨_, p, rfl, hp, Nat.le_refl _, (List.append_nil _).symm, rfl, rfl⟩

theorem performs_emit (hp : InRange ts p) (rule : Rule) (loc : Location) :
    Performs ts p (emit rule loc) (Goal.run [.emit rule loc] (ts.drop p.position)) := by
  rw [Goal.run_emit, Goal.run_nil]
  exact ⟨_, p.told ⟨rule, loc⟩, rfl, hp.told _, Nat.le_refl _, rfl, rfl, rfl⟩

/-- The first goal of the run fails, and so does the work. -/
theorem performs_of_fail (hp : InRange ts p) {goal : Goal} {what : Expectation}
    (hx : outcome x p = outcome (fail (α := Unit) ts what) p)
    (ha : goal.action (ts.drop p.position) = .fail what) :
    Performs ts p x (Goal.run (goal :: goals) (ts.drop p.position)) := by
  rw [Goal.run_fail ha]
  exact ⟨_, p, hx.trans (hp.outcome_fail what), hp, Nat.le_refl _, (List.append_nil _).symm, rfl,
    what, rfl⟩

/-! ## Looking at the next entry -/

theorem Performs.peek (hp : InRange ts p) {k : Entry → Descent Unit}
    (h : Performs ts p (k (ts.drop p.position).next) r) : Performs ts p (peek ts >>= k) r :=
  h.bind_same hp.outcome_peek

theorem Performs.peekAhead {n : Nat} {k : Option Token.Kind → Descent Unit}
    (h : Performs ts p (k ((ts.drop p.position).tokens[n]?.map Token.kind)) r) :
    Performs ts p (peekAhead ts n >>= k) r := by
  refine h.bind_same ((outcome_bind_of_ok _ (outcome_get p)).trans ?_)
  rw [TokenList.kind_entries]
  rfl

theorem Performs.previous (hp : InRange ts p) {k : Entry → Descent Unit}
    (h : Performs ts p (k (ts.drop (p.position - 1)).next) r) :
    Performs ts p (previous ts >>= k) r :=
  h.bind_same hp.outcome_previous

theorem InRange.outcome_check (hp : InRange ts p) (kind : Token.Kind) :
    outcome (check ts kind) p =
      (.ok (decide ((ts.drop p.position).next.kind = some kind)), p) :=
  outcome_bind_of_ok _ hp.outcome_peek

theorem Performs.check (hp : InRange ts p) {kind : Token.Kind} {k : Bool → Descent Unit}
    (hyes : ∀ loc rest, (ts.drop p.position).tokens = ⟨kind, loc⟩ :: rest →
      Performs ts p (k true) r)
    (hno : (∀ loc rest, (ts.drop p.position).tokens ≠ ⟨kind, loc⟩ :: rest) →
      Performs ts p (k false) r) :
    Performs ts p (check ts kind >>= k) r := by
  have ho := hp.outcome_check kind
  by_cases hk : (ts.drop p.position).next.kind = some kind
  · obtain ⟨loc, rest, ht⟩ := TokenList.eq_cons_of_next hk
    rw [decide_eq_true hk] at ho
    exact (hyes loc rest ht).bind_same ho
  · rw [decide_eq_false hk] at ho
    exact (hno fun loc rest ht => hk (by rw [TokenList.next_of_cons ht])).bind_same ho

/-! ## Going behind the next entry -/

/-- A goal that reads no token leaves those that it finds. -/
theorem run_same {goal : Goal} {new : List Goal} {us : TokenList}
    (ha : goal.action us = .replace new) : Goal.run [goal] us = Goal.run new us := by
  rw [Goal.run_replace ha, List.append_nil]

/-- A goal that reads a token leaves the tokens at the next position. -/
theorem run_next {goal : Goal} {new : List Goal} {t : Token} {rest : List Token}
    (ht : (ts.drop p.position).tokens = t :: rest)
    (ha : goal.action (ts.drop p.position) = .read new rest) (hq : q.position = p.position + 1) :
    Goal.run [goal] (ts.drop p.position) = Goal.run new (ts.drop q.position) := by
  rw [Goal.run_read ha, List.append_nil, hq, TokenList.drop_succ ht]
  rfl

theorem Performs.advance (hp : InRange ts p) {k : Entry → Descent Unit} {t : Token}
    {rest : List Token} (ht : (ts.drop p.position).tokens = t :: rest)
    (h : ∀ q, InRange ts q → q.position = p.position + 1 →
      Performs ts q (k (ts.drop p.position).next) r) :
    Performs ts p (advance ts >>= k) r :=
  (h p.next (hp.next ht) rfl).bind_next (hp.outcome_advance ht)

/-- The last entry is the token that was next before. -/
theorem next_previous {t : Token} {rest : List Token} (ht : (ts.drop p.position).tokens = t :: rest)
    (hq : q.position = p.position + 1) :
    (ts.drop (q.position - 1)).next = ⟨some t.kind, t.location⟩ := by
  rw [hq, Nat.add_sub_cancel, TokenList.next_of_cons ht]

theorem Performs.previous_of_cons (hq : InRange ts q) {k : Entry → Descent Unit} {t : Token}
    {rest : List Token} (ht : (ts.drop p.position).tokens = t :: rest)
    (hpos : q.position = p.position + 1) (h : Performs ts q (k ⟨some t.kind, t.location⟩) r) :
    Performs ts q (Descent.previous ts >>= k) r :=
  .previous hq (by rwa [next_previous ht hpos])

theorem Performs.accept (hp : InRange ts p) {kind : Token.Kind} {k : Bool → Descent Unit}
    (hyes : ∀ loc rest, (ts.drop p.position).tokens = ⟨kind, loc⟩ :: rest →
      ∀ q, InRange ts q → q.position = p.position + 1 → Performs ts q (k true) r)
    (hno : (∀ loc rest, (ts.drop p.position).tokens ≠ ⟨kind, loc⟩ :: rest) →
      Performs ts p (k false) r) :
    Performs ts p (accept ts kind >>= k) r := by
  by_cases hk : (ts.drop p.position).next.kind = some kind
  · obtain ⟨loc, rest, ht⟩ := TokenList.eq_cons_of_next hk
    refine (hyes loc rest ht _ (hp.next ht) rfl).bind_next ?_
    rw [Descent.accept, outcome_bind_of_ok _ (hp.outcome_check _), if_pos (decide_eq_true hk)]
    exact outcome_bind_of_ok _ (hp.outcome_advance ht)
  · refine (hno fun loc rest ht => hk (by rw [TokenList.next_of_cons ht])).bind_same ?_
    rw [Descent.accept, outcome_bind_of_ok _ (hp.outcome_check _), if_neg (by simpa using hk)]
    rfl

theorem Performs.acceptType (hp : InRange ts p) {k : Option DataType → Descent Unit}
    (hyes : ∀ type loc rest, (ts.drop p.position).tokens = ⟨.type type, loc⟩ :: rest →
      ∀ q, InRange ts q → q.position = p.position + 1 → Performs ts q (k (some type)) r)
    (hno : (∀ type loc rest, (ts.drop p.position).tokens ≠ ⟨.type type, loc⟩ :: rest) →
      Performs ts p (k none) r) :
    Performs ts p (acceptType? ts >>= k) r := by
  by_cases hk : ∃ type, (ts.drop p.position).next.kind = some (.type type)
  · obtain ⟨type, hk⟩ := hk
    obtain ⟨loc, rest, ht⟩ := TokenList.eq_cons_of_next hk
    refine (hyes type loc rest ht _ (hp.next ht) rfl).bind_next ?_
    rw [acceptType?, outcome_bind_of_ok _ hp.outcome_peek, hk]
    exact outcome_bind_of_ok _ (hp.outcome_advance ht)
  · rw [not_exists] at hk
    refine (hno fun type loc rest ht => hk type (by rw [TokenList.next_of_cons ht])).bind_same ?_
    rw [acceptType?, outcome_bind_of_ok _ hp.outcome_peek]
    split
    · exact absurd ‹_› (hk _)
    · rfl

theorem Performs.expectName (hp : InRange ts p) {k : String × Location → Descent Unit} {goal : Goal}
    (hyes : ∀ name loc rest, (ts.drop p.position).tokens = ⟨.name name, loc⟩ :: rest →
      ∀ q, InRange ts q → q.position = p.position + 1 →
        Performs ts q (k (name, loc)) (Goal.run (goal :: goals) (ts.drop p.position)))
    (hno : (∀ name loc rest, (ts.drop p.position).tokens ≠ ⟨.name name, loc⟩ :: rest) →
      goal.action (ts.drop p.position) = .fail .identifier) :
    Performs ts p (expectName ts >>= k) (Goal.run (goal :: goals) (ts.drop p.position)) := by
  by_cases hk : ∃ name, (ts.drop p.position).next.kind = some (.name name)
  · obtain ⟨name, hk⟩ := hk
    obtain ⟨loc, rest, ht⟩ := TokenList.eq_cons_of_next hk
    refine (hyes name loc rest ht _ (hp.next ht) rfl).bind_next ?_
    rw [Descent.expectName, outcome_bind_of_ok _ hp.outcome_peek, hk]
    refine (outcome_bind_of_ok _ (hp.outcome_advance ht)).trans ?_
    rw [TokenList.next_of_cons ht]
    rfl
  · rw [not_exists] at hk
    refine performs_of_fail hp ?_ (hno fun name loc rest ht =>
      hk name (by rw [TokenList.next_of_cons ht]))
    refine (outcome_bind_of_error k ?_).trans (hp.outcome_fail _).symm
    rw [Descent.expectName, outcome_bind_of_ok _ hp.outcome_peek]
    split
    · exact absurd ‹_› (hk _)
    · exact hp.outcome_fail _

/-- Behind the punctuator, the work goes on with the rule that it completes, if any. -/
theorem Performs.expectSign (hp : InRange ts p) {sign : Punct} {context : String}
    {rule : Option Rule} {k : Unit → Descent Unit}
    (h : ∀ loc rest, (ts.drop p.position).tokens = ⟨.punct sign, loc⟩ :: rest →
      ∀ q, InRange ts q → q.position = p.position + 1 →
        Performs ts q (k ())
          (Goal.run (rule.elim [] fun r => [.emit r loc]) (ts.drop q.position))) :
    Performs ts p (expectSign ts sign context >>= k)
      (Goal.run [.sign sign context rule] (ts.drop p.position)) := by
  by_cases hk : (ts.drop p.position).next.kind = some (.punct sign)
  · obtain ⟨loc, rest, ht⟩ := TokenList.eq_cons_of_next hk
    rw [run_next (q := p.next) ht (by rw [Goal.action, ht]; exact if_pos rfl) rfl]
    refine (h loc rest ht _ (hp.next ht) rfl).bind_next ?_
    rw [Descent.expectSign, outcome_bind_of_ok _ (hp.outcome_check _), if_pos (decide_eq_true hk)]
    exact outcome_bind_of_ok _ (hp.outcome_advance ht)
  · have ha : (Goal.sign sign context rule).action (ts.drop p.position) =
        .fail (.sign sign context) := by
      rw [Goal.action]
      split
      · exact if_neg fun h => hk (by rw [TokenList.next_of_cons ‹_›, h])
      · rfl
    refine performs_of_fail hp ((outcome_bind_of_error k ?_).trans (hp.outcome_fail _).symm) ha
    rw [Descent.expectSign, outcome_bind_of_ok _ (hp.outcome_check _), if_neg (by simpa using hk)]
    exact hp.outcome_fail _

theorem performs_expectSign (hp : InRange ts p) (sign : Punct) (context : String) :
    Performs ts p (expectSign ts sign context)
      (Goal.run [.sign sign context none] (ts.drop p.position)) := by
  rw [← bind_pure_unit (x := expectSign ts sign context)]
  exact .expectSign hp fun loc rest ht q hq hpos => performs_pure hq

theorem performs_expectSign_emit (hp : InRange ts p) (sign : Punct) (context : String)
    (rule : Rule) :
    Performs ts p (expectSign ts sign context >>= fun _ =>
      Descent.previous ts >>= fun e => emit rule e.location)
      (Goal.run [.sign sign context (some rule)] (ts.drop p.position)) := by
  exact .expectSign hp fun loc rest ht q hq hpos =>
    .previous_of_cons hq ht hpos (performs_emit hq rule loc)

end Descent

end MiniC
