import Mathlib
import MiniC.CommandLine.Directory
import MiniC.CommandLine.Echo
import MiniC.Proofs.Effect
import MiniC.Proofs.Outcome

/-!
# What the program leaves behind

A `System` is surroundings of which it can be told what was printed and what the files hold, and
where a text is written as a whole or not at all; a `Directory` is one (`Directory.system`).
`Concludes` says what is printed, what is written and what the status is behind an analysis. The
program does all that in every system, whether it prints a diagnostic when it is found or at the end
(`run_concludes`). A status of zero has a tree behind it (`exists_root_of_exitCode`).
-/

namespace MiniC.CommandLine

/-! ## The arguments -/

theorem noArtifact_withFile? {g h : Given} {path : String} (hg : g.withFile? path = some h) :
    h.noArtifact = g.noArtifact := by
  unfold Given.withFile? at hg
  split at hg
  · cases hg
  · obtain rfl := Option.some.inj hg
    rfl

theorem noArtifact_withOutput? {g h : Given} {path : String} (hg : g.withOutput? path = some h) :
    h.noArtifact = g.noArtifact := by
  unfold Given.withOutput? at hg
  split at hg
  · cases hg
  · obtain rfl := Option.some.inj hg
    rfl

theorem noArtifact_withoutArtifact? {g h : Given} (hg : g.withoutArtifact? = some h) :
    h.noArtifact = true := by
  unfold Given.withoutArtifact? at hg
  split at hg
  · cases hg
  · obtain rfl := Option.some.inj hg
    rfl

theorem noArtifact_foldlM {g h : Given} {paths : List String}
    (hg : paths.foldlM Given.withFile? g = some h) : h.noArtifact = g.noArtifact := by
  induction paths generalizing g with
  | nil =>
    obtain rfl := Option.some.inj hg
    rfl
  | cons path paths ih =>
    obtain ⟨g', hp, hg⟩ := Option.bind_eq_some_iff.1 hg
    exact (ih hg).trans (noArtifact_withFile? hp)

/-- The argument that asks for no file is among them, in front of the end of the options. -/
def Declines (args : List String) : Prop := "--no-artifact" ∈ args.takeWhile (· ≠ "--")

theorem declines_cons {arg : String} {args : List String} :
    Declines (arg :: args) ↔ arg ≠ "--" ∧ (arg = "--no-artifact" ∨ Declines args) := by
  unfold Declines
  by_cases h : arg = "--"
  · simp [h]
  · simp [h, eq_comm]

/-- It is asked for no file exactly by the argument that says so. -/
theorem noArtifact_readArguments {g h : Given} {args : List String}
    (hg : readArguments g args = some h) :
    h.noArtifact = true ↔ g.noArtifact = true ∨ Declines args := by
  fun_induction readArguments g args with
  | case1 g =>
    obtain rfl := Option.some.inj hg
    simp [Declines]
  | case2 g args =>
    rw [noArtifact_foldlM hg, declines_cons]
    simp
  | case3 g args hne ih =>
    obtain ⟨g', hg', hg⟩ := Option.bind_eq_some_iff.1 hg
    rw [ih g' hg, noArtifact_withoutArtifact? hg', declines_cons]
    simp
  | case4 | case5 => cases hg
  | case6 g path args hpath _ _ ih =>
    obtain ⟨g', hg', hg⟩ := Option.bind_eq_some_iff.1 hg
    have hend : path ≠ "--" := by rintro rfl; exact hpath rfl
    have hno : path ≠ "--no-artifact" := by rintro rfl; exact hpath rfl
    rw [ih g' hg, noArtifact_withOutput? hg', declines_cons, declines_cons]
    simp [hend, hno]
  | case7 g arg args hend hno _ path _ ih =>
    obtain ⟨g', hg', hg⟩ := Option.bind_eq_some_iff.1 hg
    rw [ih g' hg, noArtifact_withOutput? hg', declines_cons]
    simp [hend, hno]
  | case8 => cases hg
  | case9 g arg args hend hno _ _ _ ih =>
    obtain ⟨g', hg', hg⟩ := Option.bind_eq_some_iff.1 hg
    rw [ih g' hg, noArtifact_withFile? hg', declines_cons]
    simp [hend, hno]

/-- No file is asked for exactly if the arguments decline it. -/
theorem output_eq_none_iff {args : List String} {options : Options}
    (h : Options.parse? args = some options) : options.output = none ↔ Declines args := by
  obtain ⟨g, hg, h⟩ := Option.bind_eq_some_iff.1 h
  obtain ⟨file, -, h⟩ := Option.bind_eq_some_iff.1 h
  have hd : g.noArtifact = true ↔ Declines args := by
    simpa [Given.nothing] using noArtifact_readArguments hg
  rw [← hd]
  split at h
  · next hn =>
    split at h
    · cases h
    · obtain rfl := Option.some.inj h
      simp [hn]
  · next hn =>
    obtain rfl := Option.some.inj h
    simp [hn]

/-! ## Systems -/

/-- Surroundings with a state that tells what was printed and what is in the files. What is printed
stays printed, and a text is written as a whole or not at all. -/
structure System (σ : Type) where
  /-- What the program can do. -/
  host : Host (StateM σ)
  /-- What was printed to the standard output. -/
  output : σ → String
  /-- What reading the file at a path answers. -/
  content : σ → String → Except FileError ByteArray
  run_read (path : String) (s : σ) : (host.read path).run s = (content s path, s)
  output_print (text : String) (s : σ) :
    output ((host.print text).run s).2 = output s ++ text
  content_print (text : String) (s : σ) : content ((host.print text).run s).2 = content s
  output_complain (line : String) (s : σ) : output ((host.complain line).run s).2 = output s
  content_complain (line : String) (s : σ) : content ((host.complain line).run s).2 = content s
  output_write (path text : String) (s : σ) : output ((host.write path text).run s).2 = output s
  content_written {path text : String} {s : σ} (h : ((host.write path text).run s).1 = .ok ()) :
    content ((host.write path text).run s).2 path = .ok text.toUTF8
  content_unwritten {path text : String} {s : σ} {e : FileError}
    (h : ((host.write path text).run s).1 = .error e) :
    content ((host.write path text).run s).2 = content s

namespace Directory

/-- What is written to a directory is a file of it. -/
theorem exists_of_write {d e : Directory} {path text : String} (h : d.write path text = .ok e) :
    ∃ name, Target.ofPath path = .file name false ∧ e = d.put name text.toUTF8 := by
  unfold write at h
  split at h
  · cases h
  · next name slash hp =>
    cases slash with
    | true => cases h
    | false => exact ⟨name, hp, (Except.ok.inj h).symm⟩
  · cases h
  · cases h

theorem read_of_find? {d : Directory} {path name : String} {bytes : ByteArray}
    (h : Target.ofPath path = .file name false) (hf : d.find? name = some bytes) :
    d.read path = .ok bytes := by
  rw [read, h]
  dsimp only
  rw [hf]
  rfl

theorem read_put {d : Directory} {path name : String} (h : Target.ofPath path = .file name false)
    (bytes : ByteArray) : (d.put name bytes).read path = .ok bytes := by
  have hnone : (d.files.filter (·.1 ≠ name)).lookup name = none := by
    rw [List.lookup_eq_none_iff]
    intro entry hm
    have hne : entry.1 ≠ name := of_decide_eq_true (List.mem_filter.1 hm).2
    simpa using hne.symm
  refine read_of_find? h ?_
  rw [find?, put, List.lookup_append, hnone, Option.none_or, List.lookup_cons_self]

theorem run_write (path text : String) (d : Directory) : (host.write path text).run d =
    match d.write path text with
    | .ok e => (.ok (), e)
    | .error e => (.error e, d) := by
  change StateT.run (match d.write path text with
    | .ok e => do
      set e
      return .ok ()
    | .error e => return .error e : StateM Directory (Except FileError Unit)) d = _
  cases d.write path text <;> rfl

/-- A directory is a system. -/
def system : System Directory where
  host := host
  output := Directory.output
  content := read
  run_read _ _ := rfl
  output_print _ _ := rfl
  content_print _ _ := rfl
  output_complain _ _ := rfl
  content_complain _ _ := rfl
  output_write path text d := by
    rw [run_write]
    split
    · next h =>
      obtain ⟨name, -, rfl⟩ := exists_of_write h
      rfl
    · rfl
  content_written {path text d} h := by
    rw [run_write] at h ⊢
    split at h
    · next hw =>
      obtain ⟨name, hp, rfl⟩ := exists_of_write hw
      exact read_put hp _
    · cases h
  content_unwritten {path text d e} h := by
    rw [run_write] at h ⊢
    split at h
    · cases h
    · rfl

end Directory

/-! ## Printing -/

/-- Diagnostics as text, a line each. -/
def diagnosticLines (ds : List Diagnostic) : String := String.join (ds.map (·.text ++ "\n"))

theorem diagnosticLines_cons (d : Diagnostic) (ds : List Diagnostic) :
    diagnosticLines (d :: ds) = d.text ++ "\n" ++ diagnosticLines ds := String.join_cons

theorem diagnosticLines_append (ds es : List Diagnostic) :
    diagnosticLines (ds ++ es) = diagnosticLines ds ++ diagnosticLines es := by
  rw [diagnosticLines, List.map_append, String.join_append]
  rfl

/-- All that is printed about an analysis are its diagnostics and then its results. -/
theorem printed_eq (a : Analysis) : printed a = diagnosticLines a.diagnostics ++ results a := by
  rw [printed, Analysis.preorder, results]
  cases a.root <;> cases a.failure <;>
    simp only [diagnosticLines, Option.map, String.append_assoc]

variable {σ : Type} (S : System σ)

/-- The state `t` is `s` but for the text that was printed. -/
def Prints (text : String) (s t : σ) : Prop :=
  S.output t = S.output s ++ text ∧ S.content t = S.content s

variable {S} {s t u : σ} {text more : String}

theorem Prints.trans (h : Prints S text s t) (h' : Prints S more t u) :
    Prints S (text ++ more) s u :=
  ⟨by rw [h'.1, h.1, String.append_assoc], h'.2.trans h.2⟩

theorem prints_nil (s : σ) : Prints S (diagnosticLines []) s s :=
  ⟨String.append_empty.symm, rfl⟩

theorem prints_print (text : String) (s : σ) : Prints S text s ((S.host.print text).run s).2 :=
  ⟨S.output_print text s, S.content_print text s⟩

theorem prints_echo (ds : List Diagnostic) (s : σ) :
    Prints S (diagnosticLines ds) s ((echo S.host ds).run s).2 := by
  induction ds generalizing s with
  | nil => exact prints_nil s
  | cons d ds ih =>
    rw [diagnosticLines_cons]
    exact (prints_print _ s).trans (ih _)

/-- What a state adds to the diagnostics of another is printed. -/
theorem prints_added {a b : Analyzer} {ds : List Diagnostic}
    (h : b.diagnostics = a.diagnostics ++ ds) (s : σ) : Prints S (diagnosticLines ds) s
      ((echo S.host (b.diagnostics.drop a.diagnostics.length)).run s).2 := by
  rw [h, List.drop_left]
  exact prints_echo ds s

/-- Printing each diagnostic when it is found leaves the analysis as it is, and prints those that it
adds. -/
theorem run_analyzeEchoing (a : Analyzer) (events : List Event) (failure : Option SyntaxError)
    (s : σ) : ((analyzeEchoing S.host a events failure).run s).1 = a.run events failure ∧
      ∃ ds, (a.run events failure).diagnostics = a.diagnostics ++ ds ∧
        Prints S (diagnosticLines ds) s ((analyzeEchoing S.host a events failure).run s).2 := by
  induction events generalizing a s with
  | nil =>
    cases failure with
    | none => exact ⟨rfl, [], by simp [Analyzer.run, Analyzer.diagnostics_finish], prints_nil s⟩
    | some e => exact ⟨rfl, _, Analyzer.diagnostics_finish .., prints_added rfl s⟩
  | cons event events ih =>
    rw [analyzeEchoing, Analyzer.run]
    cases hb : a.apply event with
    | error e => exact ⟨rfl, [], (List.append_nil _).symm, prints_nil s⟩
    | ok b =>
      obtain ⟨new, hnew, -⟩ := Analyzer.apply_adds hb
      have hnow := prints_added (S := S) hnew s
      obtain ⟨hrun, ds, hds, hlater⟩ :=
        ih b ((echo S.host (b.diagnostics.drop a.diagnostics.length)).run s).2
      refine ⟨hrun, new ++ ds, hds.trans (by rw [hnew, List.append_assoc]), ?_⟩
      rw [diagnosticLines_append]
      exact hnow.trans hlater

/-! ## The program -/

/-- The last line tells the tree, or why there is none. -/
def TellsTree (a : Analysis) (last : String) : Prop :=
  match a.root with
  | some tree => last = "Preorder traversal of the syntax tree:\n" ++ tree.preorder ++ "\n"
  | none => ∃ failure, a.failure = some failure ∧
      last = "No syntax tree: " ++ failure.text ++ "\n"

/-- What the program leaves behind the analysis of a source text : the state `t`, with the status
`status`, of a system that was in the state `s`. -/
structure Concludes (S : System σ) (options : Options) (source : String) (s : σ) (status : Nat)
    (t : σ) : Prop where
  /-- The diagnostics are printed in order, then the report, then the tree. -/
  output : ∃ last, TellsTree (analyze source) last ∧ S.output t = S.output s ++
    (String.join ((analyze source).diagnostics.map (·.text ++ "\n")) ++ "\n" ++
      (analyze source).report.text ++ "\n" ++ last)
  /-- A tree is written to the file that is asked for, and the status tells whether it could be. -/
  written : ∀ path tree, options.output = some path → (analyze source).root = some tree →
    ∃ u, S.output u = S.output t ∧ S.content u = S.content s ∧
      match ((S.host.write path (tree.preorder ++ "\n")).run u).1 with
      | .ok () => status = (analyze source).exitCode ∧
          S.content t path = .ok (tree.preorder ++ "\n").toUTF8
      | .error _ => status = 1 ∧ S.content t = S.content s
  /-- Nothing else is written. -/
  untouched : options.output = none ∨ (analyze source).root = none →
    status = (analyze source).exitCode ∧ S.content t = S.content s
  /-- Behind a status of zero there is a tree, in the file as well if it is asked for, and no
  error. -/
  success : status = 0 → ∃ tree, (analyze source).root = some tree ∧
    (∀ d ∈ (analyze source).diagnostics, d.isError = false) ∧
    ∀ path, options.output = some path →
      S.content t path = .ok (tree.preorder ++ "\n").toUTF8

/-- An analysis with a status of zero has a tree and no error. -/
theorem exists_root_of_exitCode {source : String} (h : (analyze source).exitCode = 0) :
    ∃ tree, (analyze source).root = some tree ∧
      ∀ d ∈ (analyze source).diagnostics, d.isError = false := by
  obtain ⟨ending, he⟩ := Ending.exists_describes source
  cases ending with
  | rejected error =>
    obtain ⟨-, -, -, hc⟩ := he
    omega
  | blank =>
    obtain ⟨-, -, -, -, hc⟩ := he
    omega
  | complete tree =>
    obtain ⟨-, -, -, hr, -, hc⟩ := he
    refine ⟨_, hr, fun d hd => ?_⟩
    by_contra hne
    have := hc.2 ⟨d, hd, by simpa using hne⟩
    omega

/-- The results of a source text end with its tree, or with the failure that left it without. -/
theorem exists_tellsTree (source : String) : ∃ last, TellsTree (analyze source) last ∧
    results (analyze source) = "\n" ++ (analyze source).report.text ++ "\n" ++ last := by
  cases hr : (analyze source).root with
  | some tree => exact ⟨_, by rw [TellsTree, hr], by rw [results, hr]⟩
  | none =>
    obtain ⟨failure, hf⟩ : ∃ failure, (analyze source).failure = some failure := by
      obtain ⟨ending, he⟩ := Ending.exists_describes source
      rw [Ending.failure_of_describes he]
      cases ending with
      | rejected | blank => exact ⟨_, rfl⟩
      | complete tree =>
        obtain ⟨-, -, -, ht, -⟩ := he
        cases hr.symm.trans ht
    refine ⟨_, ?_, by rw [results, hr, hf]⟩
    rw [TellsTree, hr]
    exact ⟨failure, hf, rfl⟩

theorem run_bind_of_run {α β : Type} {x : StateM σ α} {f : α → StateM σ β} {a : α}
    (h : x.run s = (a, t)) : (x >>= f).run s = (f a).run t := by
  rw [StateT.run_bind, h]
  rfl

theorem run_store_of_none {options : Options} {a : Analysis} (h : artifact? options a = none)
    (t : σ) : (store S.host options a).run t = (a.exitCode, t) := by
  rw [store, h]
  rfl

theorem run_store_of_ok {options : Options} {a : Analysis} {path : String}
    (h : artifact? options a = some (path, text))
    (hw : ((S.host.write path text).run t).1 = .ok ()) :
    (store S.host options a).run t = (a.exitCode, ((S.host.write path text).run t).2) := by
  rw [store, h]
  dsimp only
  rw [run_bind_of_run (Prod.ext hw rfl)]
  rfl

theorem run_store_of_error {options : Options} {a : Analysis} {path : String} {e : FileError}
    (h : artifact? options a = some (path, text))
    (hw : ((S.host.write path text).run t).1 = .error e) : (store S.host options a).run t =
      (1, ((S.host.complain (fatal "write" path e)).run ((S.host.write path text).run t).2).2) := by
  rw [store, h]
  dsimp only
  rw [run_bind_of_run (Prod.ext hw rfl)]
  rfl

/-- Between `s` and `t` the diagnostics were printed in order, then the report, then the tree. -/
def Tells (S : System σ) (source : String) (s t : σ) : Prop :=
  ∃ last, TellsTree (analyze source) last ∧ S.output t = S.output s ++
    (String.join ((analyze source).diagnostics.map (·.text ++ "\n")) ++ "\n" ++
      (analyze source).report.text ++ "\n" ++ last)

theorem tells_of_prints {source : String}
    (h : Prints S (diagnosticLines (analyze source).diagnostics ++ results (analyze source)) s t) :
    Tells S source s t := by
  obtain ⟨last, htells, hlast⟩ := exists_tellsTree source
  refine ⟨last, htells, ?_⟩
  rw [h.1, hlast]
  simp only [diagnosticLines, String.append_assoc]

theorem Tells.of_output_eq {source : String} (h : Tells S source s t)
    (hu : S.output u = S.output t) : Tells S source s u := by
  obtain ⟨last, htells, hout⟩ := h
  exact ⟨last, htells, hu.trans hout⟩

/-- Behind an analysis without a tree, or where no file is asked for, nothing is written. -/
theorem concludes_of_nothing {options : Options} {source : String} {status : Nat}
    (hnone : options.output = none ∨ (analyze source).root = none) (ht : Tells S source s t)
    (hstatus : status = (analyze source).exitCode) (hc : S.content t = S.content s) :
    Concludes S options source s status t := by
  refine ⟨ht, fun path tree ho hr => ?_, fun _ => ⟨hstatus, hc⟩, fun hz => ?_⟩
  · simp [ho, hr] at hnone
  · obtain ⟨tree, hr, hd⟩ := exists_root_of_exitCode (hstatus ▸ hz)
    exact ⟨tree, hr, hd, fun path ho => by simp [ho, hr] at hnone⟩

/-- A tree and a file for it leave one attempt to write, in a state `u`. -/
theorem concludes_of_write {options : Options} {source path : String} {tree : Tree}
    {status : Nat} (ho : options.output = some path) (hr : (analyze source).root = some tree)
    (ht : Tells S source s t) (hu : S.output u = S.output t) (hc : S.content u = S.content s)
    (hw : match ((S.host.write path (tree.preorder ++ "\n")).run u).1 with
      | .ok () => status = (analyze source).exitCode ∧
          S.content t path = .ok (tree.preorder ++ "\n").toUTF8
      | .error _ => status = 1 ∧ S.content t = S.content s) :
    Concludes S options source s status t := by
  have hpath {path' : String} (ho' : options.output = some path') : path = path' :=
    Option.some.inj (ho.symm.trans ho')
  refine ⟨ht, fun path' tree' ho' hr' => ?_, fun hn => ?_, fun hz => ?_⟩
  · obtain rfl := hpath ho'
    obtain rfl := Option.some.inj (hr.symm.trans hr')
    exact ⟨u, hu, hc, hw⟩
  · simp [ho, hr] at hn
  · split at hw
    · obtain ⟨hstatus, hcontent⟩ := hw
      obtain ⟨-, -, hd⟩ := exists_root_of_exitCode (hstatus ▸ hz)
      exact ⟨tree, hr, hd, fun path' ho' => hpath ho' ▸ hcontent⟩
    · exact absurd (hw.1.symm.trans hz) Nat.one_ne_zero

/-- What is printed and then written behind an analysis is what the program leaves behind. -/
theorem concludes_store {options : Options} {source : String}
    (h : Prints S (diagnosticLines (analyze source).diagnostics ++ results (analyze source)) s t) :
    Concludes S options source s ((store S.host options (analyze source)).run t).1
      ((store S.host options (analyze source)).run t).2 := by
  have ht := tells_of_prints h
  by_cases hnone : options.output = none ∨ (analyze source).root = none
  · have ha : artifact? options (analyze source) = none := by
      rw [artifact?, Analysis.preorder]
      obtain ho | hr := hnone
      · rw [ho]
      · rw [hr]
        cases options.output <;> rfl
    rw [run_store_of_none ha]
    exact concludes_of_nothing hnone ht rfl h.2
  · obtain ⟨ho, hr⟩ := not_or.1 hnone
    obtain ⟨path, ho⟩ := Option.ne_none_iff_exists'.1 ho
    obtain ⟨tree, hr⟩ := Option.ne_none_iff_exists'.1 hr
    have ha : artifact? options (analyze source) = some (path, tree.preorder ++ "\n") := by
      rw [artifact?, Analysis.preorder, ho, hr]
      rfl
    cases hw : ((S.host.write path (tree.preorder ++ "\n")).run t).1 with
    | ok =>
      rw [run_store_of_ok ha hw]
      have hout := S.output_write path (tree.preorder ++ "\n") t
      refine concludes_of_write ho hr (ht.of_output_eq hout) hout.symm h.2 ?_
      rw [hw]
      exact ⟨rfl, S.content_written hw⟩
    | error e =>
      rw [run_store_of_error ha hw]
      have hout := (S.output_complain (fatal "write" path e) _).trans
        (S.output_write path (tree.preorder ++ "\n") t)
      refine concludes_of_write ho hr (ht.of_output_eq hout) hout.symm h.2 ?_
      rw [hw]
      exact ⟨rfl, by rw [S.content_complain, S.content_unwritten hw, h.2]⟩

theorem decode_toUTF8 (source : String) : decode source.toUTF8 = .ok source := by
  have h : String.fromUTF8? source.toUTF8 = some source := dif_pos source.isValidUTF8
  rw [decode, h]

/-- A source file that is a text is read as that text, and the state stays as it is. -/
theorem run_read_source {path source : String} (hs : S.content s path = .ok source.toUTF8) :
    ∃ bytes, (S.host.read path).run s = (bytes, s) ∧ bytes >>= decode = .ok source :=
  ⟨_, by rw [S.run_read, hs], decode_toUTF8 source⟩

variable {args : List String} {options : Options} {source : String}

/-- The program prints and then writes what the analysis finds out. -/
theorem run_eq (ha : Options.parse? args = some options)
    (hs : S.content s options.file = .ok source.toUTF8) : (run S.host args).run s =
      (store S.host options (analyze source)).run
        ((S.host.print (printed (analyze source))).run s).2 := by
  obtain ⟨bytes, hread, hdecode⟩ := run_read_source hs
  rw [run, ha]
  dsimp only
  rw [run_bind_of_run hread, hdecode]
  rfl

/-- The same when the diagnostics were printed before. -/
theorem runEchoing_eq (ha : Options.parse? args = some options)
    (hs : S.content s options.file = .ok source.toUTF8) {a : Analysis}
    (hr : (analyzeEchoing S.host .start (parse source).events (parse source).failure).run s =
      (a, t)) : (runEchoing S.host args).run s =
      (store S.host options a).run ((S.host.print (results a)).run t).2 := by
  obtain ⟨bytes, hread, hdecode⟩ := run_read_source hs
  rw [runEchoing, ha]
  dsimp only
  rw [run_bind_of_run hread, hdecode]
  dsimp only
  rw [run_bind_of_run hr]
  rfl

/-- With arguments that make sense and a source file that is a text, the program prints the
diagnostics, the report and the tree, writes the tree to the file that is asked for, and answers
with the status of the analysis, or with one if the file could not be written; a status of zero has
a tree behind it. It is the same if every diagnostic is printed when it is found. -/
theorem run_concludes (ha : Options.parse? args = some options)
    (hs : S.content s options.file = .ok source.toUTF8) :
    (options.output = none ↔ Declines args) ∧
    Concludes S options source s ((run S.host args).run s).1 ((run S.host args).run s).2 ∧
    Concludes S options source s ((runEchoing S.host args).run s).1
      ((runEchoing S.host args).run s).2 := by
  refine ⟨output_eq_none_iff ha, ?_, ?_⟩
  · rw [run_eq ha hs]
    refine concludes_store ?_
    rw [← printed_eq]
    exact prints_print _ s
  · obtain ⟨hrun, ds, hds, hp⟩ := run_analyzeEchoing (S := S) .start (parse source).events
      (parse source).failure s
    obtain rfl : (analyze source).diagnostics = ds := hds
    rw [runEchoing_eq ha hs (Prod.ext hrun rfl)]
    exact concludes_store (hp.trans (prints_print _ _))

/-- A source file with one declaration leaves a status of zero, and its tree in the file that is
asked for. -/
theorem run_concludes_of_declaration :
    Options.parse? ["a.c", "--output=a.t"] = some ⟨"a.c", some "a.t"⟩ ∧
    Directory.system.content (.ofFiles [("a.c", "int a;".toUTF8)]) "a.c" =
      .ok "int a;".toUTF8 ∧
    ∃ d : Directory, (run Directory.host ["a.c", "--output=a.t"]).run
        (.ofFiles [("a.c", "int a;".toUTF8)]) = (0, d) ∧
      d.read "a.t" = .ok "Dc a\n".toUTF8 := by
  have ha : Options.parse? ["a.c", "--output=a.t"] = some ⟨"a.c", some "a.t"⟩ := by
    decide +kernel
  have hs : Directory.system.content (.ofFiles [("a.c", "int a;".toUTF8)]) "a.c" =
      .ok "int a;".toUTF8 :=
    Directory.read_of_find? (by cbv) List.lookup_cons_self
  have hroot : (analyze "int a;").root = some (.node "Dc a" 1 .empty .empty .empty .empty) := by cbv
  have hcode : (analyze "int a;").exitCode = 0 := by cbv
  obtain ⟨-, h, -⟩ := run_concludes ha hs
  obtain ⟨u, -, -, hw⟩ := h.written "a.t" _ rfl hroot
  have hpath : Target.ofPath "a.t" = .file "a.t" false := by cbv
  have hok (text : String) :
      ((Directory.system.host.write "a.t" text).run u).1 = .ok () := by
    change ((Directory.host.write "a.t" text).run u).1 = .ok ()
    rw [Directory.run_write, Directory.write, hpath]
    rfl
  rw [hok] at hw
  exact ⟨ha, hs, _, Prod.ext (hw.1.trans hcode) rfl, hw.2⟩

end MiniC.CommandLine
