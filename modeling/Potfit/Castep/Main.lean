import Potfit.Castep.Steps
import Potfit.Castep.Output

/-!
# The converter

`main` reads every md file named on the command line, keeps all their
configurations or, with `--final`, the last of each, and `write_configurations`
writes them one after the other with `to_string`.

* `MdFile`: an md file of closed steps, as `read_md_file_steps` reads it;
* `main_steps`: for such files the output is the text of the configurations
  built from each step on its own, in file order;
* `main_final_steps`: with `--final`, the output is the text of the
  configuration built from the last step of each file, every step of every
  file being built;
* `main_final_no_step`: with `--final`, a file with no closed step makes the
  whole conversion fail with `IndexError`.
-/

namespace Potfit.Castep

/-- One pass of `main`'s loop over the files: read the file, then keep all its
configurations, or with `--final` the last. -/
def addFile (potentials : List (String × ℚ)) (final : Bool) (configurations : List Configuration)
    (lines : List String) : Except PyError (List Configuration) := do
  let configuration ← readMdFile potentials lines
  if final then
    let c ← pyGet configuration (-1)
    pure (configurations ++ [c])
  else pure (configurations ++ configuration)

/-- `main` from the parsed flags on, with each md file as its lines: the text
`write_configurations` writes. -/
def main (files : List (List String)) (potential : String) (final : Bool) :
    Except PyError String := do
  let potentials ← parsePotentials potential
  let configurations ← files.foldlM (addFile potentials final) []
  let texts ← configurations.mapM Configuration.toString
  pure (String.join texts)

/-- An md file of closed steps: an optional `BEGIN header` line with the four
lines it skips, then steps, each its lines and the blank line that closes it. -/
structure MdFile where
  header : List String
  steps : List (List String × String)
  header_ok : header = [] ∨ ∃ h a b c d, header = [h, a, b, c, d] ∧ strip h = "BEGIN header"
  steps_ok : ∀ s ∈ steps, (∀ l ∈ s.1, IsStepLine l) ∧ strip s.2 = ""

/-- The lines of an md file. -/
def MdFile.lines (f : MdFile) : List String := f.header ++ f.steps.flatMap fun s => s.1 ++ [s.2]

section
variable {potentials : List (String × ℚ)}

theorem readMdFile_lines (f : MdFile) :
    readMdFile potentials f.lines = f.steps.mapM fun s => buildConfiguration potentials s.1 := by
  have h := @readMdFile_steps_tail potentials f.steps f.steps_ok [] (by simp)
  rw [List.append_nil] at h
  rw [MdFile.lines, readMdFile_header f.header_ok, h]
  cases f.steps.mapM fun s => buildConfiguration potentials s.1 <;> rfl

/-- Without `--final`, the files' loop appends each file's configurations. -/
theorem foldlM_addFile :
    ∀ (files : List MdFile) (acc : List Configuration),
      (files.map MdFile.lines).foldlM (addFile potentials false) acc =
        ((files.flatMap MdFile.steps).mapM fun s => buildConfiguration potentials s.1).map (acc ++ ·)
  | [], acc => by
    simp only [List.map_nil, List.foldlM_nil, List.flatMap_nil, List.mapM_nil]
    show Except.ok acc = Except.ok (acc ++ [])
    rw [List.append_nil]
  | f :: fs, acc => by
    simp only [List.map_cons, List.foldlM_cons, List.flatMap_cons, List.mapM_append, addFile,
      readMdFile_lines, Bool.false_eq_true, if_false]
    cases f.steps.mapM fun s => buildConfiguration potentials s.1 with
    | error e => rfl
    | ok cs =>
      simp only [except_ok_bind, pure, Except.pure]
      rw [foldlM_addFile fs (acc ++ cs)]
      cases (fs.flatMap MdFile.steps).mapM fun s => buildConfiguration potentials s.1 with
      | error e => rfl
      | ok ds => simp [Except.map, List.append_assoc]

end

/-- **The converter on md files of closed steps.** Without `--final`, `main`
writes the text `to_string` gives for the configurations built from every step
of every file, each from its own lines, in file order; or stops with the first
error. -/
theorem main_steps {potential : String} {potentials : List (String × ℚ)}
    (hp : parsePotentials potential = .ok potentials) (files : List MdFile) :
    main (files.map MdFile.lines) potential false =
      ((files.flatMap MdFile.steps).mapM fun s => buildConfiguration potentials s.1) >>= fun cs =>
        (cs.mapM Configuration.toString).map String.join := by
  simp only [main, hp, except_ok_bind, foldlM_addFile, List.nil_append]
  cases (files.flatMap MdFile.steps).mapM fun s => buildConfiguration potentials s.1 with
  | error e => rfl
  | ok cs => cases cs.mapM Configuration.toString <;> rfl

/-- One md file of one step of one argon atom. -/
theorem main_steps_argon :
    ∃ potentials, parsePotentials "Ar=0.01" = .ok potentials ∧
      main ([⟨[], [(["Ar 1 0 0 0 R"], "")], .inl rfl, by decide⟩].map MdFile.lines) "Ar=0.01" false =
        (([⟨[], [(["Ar 1 0 0 0 R"], "")], .inl rfl, by decide⟩] : List MdFile).flatMap MdFile.steps).mapM
          (fun s => buildConfiguration potentials s.1) >>= fun cs =>
            (cs.mapM Configuration.toString).map String.join :=
  ⟨_, rfl, @main_steps "Ar=0.01" _ rfl _⟩

/-- With `--final`, the files' loop goes past every file that has a
configuration. -/
theorem foldlM_addFile_final {potentials : List (String × ℚ)} :
    ∀ (files : List (List String)), (∀ f ∈ files, ∃ c cs, readMdFile potentials f = .ok (c :: cs)) →
      ∀ acc, ∃ acc', files.foldlM (addFile potentials true) acc = .ok acc'
  | [], _, acc => ⟨acc, rfl⟩
  | f :: fs, h, acc => by
    obtain ⟨c, cs, hf⟩ := h f (List.mem_cons_self _ _)
    obtain ⟨acc', h'⟩ := foldlM_addFile_final fs (fun f' hf' => h f' (List.mem_cons_of_mem _ hf'))
      (acc ++ [(c :: cs).getLast (List.cons_ne_nil c cs)])
    refine ⟨acc', ?_⟩
    rw [List.foldlM_cons, ← h']
    simp only [addFile, hf, pyGet_neg_one, if_true, except_ok_bind]
    rfl

/-- **`--final` and a file with no configuration.** With `--final`, `main`
takes the last configuration of each file; a file from which `read_md_file`
returns none, such as one whose only step is not closed by a blank line, stops
the whole conversion with `IndexError`. -/
theorem main_final_no_step {potential : String} {potentials : List (String × ℚ)}
    (hp : parsePotentials potential = .ok potentials) (files₁ : List (List String))
    (h₁ : ∀ f ∈ files₁, ∃ c cs, readMdFile potentials f = .ok (c :: cs)) {lines : List String}
    (h : readMdFile potentials lines = .ok []) (files₂ : List (List String)) :
    main (files₁ ++ lines :: files₂) potential true = .error .indexError := by
  obtain ⟨acc, hacc⟩ := foldlM_addFile_final files₁ h₁ []
  simp only [main, hp, except_ok_bind, List.foldlM_append, hacc, List.foldlM_cons, addFile, h,
    if_true]
  rfl

/-- A file of one closed step, a file whose one step has no blank line after
it, and another file of one closed step. -/
theorem main_final_no_step_argon :
    main ([["Ar 1 0 0 0 R", ""]] ++ ["Ar 1 0 0 0 R"] :: [["Ar 2 0 0 0 R", ""]]) "Ar=0.01" true =
      .error .indexError :=
  @main_final_no_step "Ar=0.01" _ rfl [["Ar 1 0 0 0 R", ""]]
    (fun f hf => by
      rw [List.mem_singleton.mp hf]
      exact ⟨_, [], (readMdFile_lines ⟨[], [(["Ar 1 0 0 0 R"], "")], .inl rfl, by decide⟩).trans rfl⟩)
    ["Ar 1 0 0 0 R"] (by rw [readMdFile_eq, readConfiguration_unterminated _ _ (by decide)]; rfl)
    [["Ar 2 0 0 0 R", ""]]

/-- With `--final`, the files' loop appends the configuration of each file's
last step, once every step of the file is built. -/
theorem foldlM_addFile_last {potentials : List (String × ℚ)} :
    ∀ (files : List MdFile), (∀ f ∈ files, f.steps ≠ []) → ∀ acc,
      (files.map MdFile.lines).foldlM (addFile potentials true) acc =
        (files.mapM fun f : MdFile => (f.steps.mapM fun s => buildConfiguration potentials s.1).map
          fun cs => cs.getLastD Configuration.init).map (acc ++ ·)
  | [], _, acc => by
    show Except.ok acc = Except.ok (acc ++ [])
    rw [List.append_nil]
  | f :: fs, hne, acc => by
    have ih := @foldlM_addFile_last potentials fs (fun f' hf' => hne f' (List.mem_cons_of_mem _ hf'))
    simp only [List.map_cons, List.foldlM_cons, List.mapM_cons, addFile, readMdFile_lines, if_true]
    cases hf : f.steps.mapM fun s => buildConfiguration potentials s.1 with
    | error e => rfl
    | ok cs =>
      obtain ⟨c, cs', rfl⟩ : ∃ c cs', cs = c :: cs' := List.exists_cons_of_ne_nil fun h =>
        hne f (List.mem_cons_self _ _) (List.eq_nil_of_length_eq_zero (by rw [← length_of_mapM_ok hf, h]; rfl))
      have hlast : (c :: cs').getLast (List.cons_ne_nil c cs') = (c :: cs').getLastD Configuration.init := by
        rw [List.getLastD_eq_getLast?, List.getLast?_eq_getLast _ (List.cons_ne_nil c cs')]
        rfl
      simp only [except_ok_bind, pyGet_neg_one, pure, Except.pure, ih, hlast]
      generalize fs.mapM (fun f : MdFile => (f.steps.mapM fun s => buildConfiguration potentials s.1).map
          fun cs => cs.getLastD Configuration.init) = r
      cases r with
      | error e => rfl
      | ok ds => simp only [Except.map, List.append_assoc, List.singleton_append]; rfl

/-- **The converter with `--final`.** On md files of closed steps, each with
a step, `main` builds every step of every file, stopping at the first error,
and writes the text `to_string` gives for the configuration of the last step
of each file, in file order. -/
theorem main_final_steps {potential : String} {potentials : List (String × ℚ)}
    (hp : parsePotentials potential = .ok potentials) (files : List MdFile)
    (hne : ∀ f ∈ files, f.steps ≠ []) :
    main (files.map MdFile.lines) potential true =
      (files.mapM fun f : MdFile => (f.steps.mapM fun s => buildConfiguration potentials s.1).map
          fun cs => cs.getLastD Configuration.init) >>= fun cs =>
        (cs.mapM Configuration.toString).map String.join := by
  simp only [main, hp, except_ok_bind, foldlM_addFile_last files hne, List.nil_append]
  cases files.mapM (fun f : MdFile => (f.steps.mapM fun s => buildConfiguration potentials s.1).map
      fun cs => cs.getLastD Configuration.init) with
  | error e => rfl
  | ok cs => cases cs.mapM Configuration.toString <;> rfl

/-- One md file of two steps. -/
theorem main_final_steps_argon :
    ∃ potentials, parsePotentials "Ar=0.01" = .ok potentials ∧
      main ([⟨[], [(["Ar 1 0 0 0 R"], ""), (["Ar 1 1 1 1 R"], "")], .inl rfl, by decide⟩].map
          MdFile.lines) "Ar=0.01" true =
        ([⟨[], [(["Ar 1 0 0 0 R"], ""), (["Ar 1 1 1 1 R"], "")], .inl rfl, by decide⟩] : List MdFile).mapM
          (fun f : MdFile => (f.steps.mapM fun s => buildConfiguration potentials s.1).map
            fun cs => cs.getLastD Configuration.init) >>= fun cs =>
          (cs.mapM Configuration.toString).map String.join :=
  ⟨_, rfl, @main_final_steps "Ar=0.01" _ rfl _ (by decide)⟩

end Potfit.Castep
