import Potfit.Castep.Read

/-!
# Splitting an md file into steps

`read_md_file` calls `read_configuration` until it returns `None`, and
`read_configuration` reads lines until a blank one (`break`, a configuration)
or the end of the file (the `for`'s `else`, `None`), skipping the four lines
after a `BEGIN header` line. So a file of steps, each closed by a blank line,
is read step by step:

* `readConfiguration_step`: a step and its blank line give the configuration
  `buildConfiguration` builds from the step's lines alone;
* `readConfiguration_unterminated`: lines not closed by a blank line are read
  and then dropped;
* `readMdFile_steps_tail`: the whole file, by induction over the steps;
* `build_configuration_read_lines`: within a step, lines of any tag but
  `S`, `E`, `h`, `R` and `F` change nothing.
-/

namespace Potfit.Castep

/-- A line of a step: neither blank nor `BEGIN header`. -/
def IsStepLine (line : String) : Prop := strip line ≠ "" ∧ strip line ≠ "BEGIN header"

instance (line : String) : Decidable (IsStepLine line) := inferInstanceAs (Decidable (_ ∧ _))

section
variable {potentials : List (String × ℚ)}

/-- The lines of a step, up to its blank line, go through the loop body; the
blank line ends the configuration. -/
theorem readConfiguration_step :
    ∀ (lines : List String) (st : Reading), (∀ l ∈ lines, IsStepLine l) →
      ∀ {blank : String}, strip blank = "" → ∀ rest : List String,
        readConfiguration potentials st (lines ++ blank :: rest) =
          (lines.foldlM (fun st line => processLine st (strip line)) st) >>= fun st =>
            (finishEnergy potentials st.config st.energy) >>= fun c => pure (some c, rest)
  | [], st, _, blank, hb, rest => by
    rw [List.nil_append, readConfiguration, if_neg (by rw [hb]; decide), if_pos hb]
    rfl
  | line :: lines, st, hl, blank, hb, rest => by
    obtain ⟨hne, hnh⟩ := hl line (List.mem_cons_self _ _)
    rw [List.cons_append, readConfiguration, if_neg hnh, if_neg hne, List.foldlM_cons]
    cases processLine st (strip line) with
    | error e => rfl
    | ok st1 =>
      exact readConfiguration_step lines st1 (fun l h => hl l (List.mem_cons_of_mem _ h)) hb rest

/-- Lines that end the file without a blank line are read, and the
configuration they make is dropped: `read_configuration` returns `None`. -/
theorem readConfiguration_unterminated :
    ∀ (lines : List String) (st : Reading), (∀ l ∈ lines, IsStepLine l) →
      readConfiguration potentials st lines =
        (lines.foldlM (fun st line => processLine st (strip line)) st) >>= fun _ => pure (none, [])
  | [], st, _ => by rw [readConfiguration]; rfl
  | line :: lines, st, hl => by
    obtain ⟨hne, hnh⟩ := hl line (List.mem_cons_self _ _)
    rw [readConfiguration, if_neg hnh, if_neg hne, List.foldlM_cons]
    cases processLine st (strip line) with
    | error e => rfl
    | ok st1 => exact readConfiguration_unterminated lines st1 fun l h => hl l (List.mem_cons_of_mem _ h)

/-- `BEGIN header` and the four lines after it are skipped. -/
theorem readConfiguration_header {h : String} (hh : strip h = "BEGIN header") (st : Reading)
    (a b c d : String) (rest : List String) :
    readConfiguration potentials st (h :: a :: b :: c :: d :: rest) =
      readConfiguration potentials st rest := by
  rw [readConfiguration, if_pos hh]
  rfl

/-- `read_md_file` goes on after each configuration with the lines left. -/
theorem readMdFile_eq (lines : List String) :
    readMdFile potentials lines =
      match readConfiguration potentials Reading.init lines with
      | .error e => .error e
      | .ok (none, _) => .ok []
      | .ok (some c, rest) => (readMdFile potentials rest).map (c :: ·) := by
  rw [readMdFile]
  split <;> rename_i h <;> simp only [h]
  · rfl
  · rfl
  · cases readMdFile potentials _ <;> rfl

/-- **Reading a file of steps.** Steps each closed by a blank line, then lines
not closed by one: `read_md_file` returns one configuration per step, each
built from the step's own lines, after reading the last lines, whose
configuration it drops. -/
theorem readMdFile_steps_tail :
    ∀ (steps : List (List String × String)), (∀ s ∈ steps, (∀ l ∈ s.1, IsStepLine l) ∧ strip s.2 = "") →
      ∀ (tail : List String), (∀ l ∈ tail, IsStepLine l) →
        readMdFile potentials ((steps.flatMap fun s => s.1 ++ [s.2]) ++ tail) =
          (steps.mapM fun s => buildConfiguration potentials s.1) >>= fun cs =>
            (tail.foldlM (fun st line => processLine st (strip line)) Reading.init).map fun _ => cs
  | [], _, tail, htail => by
    rw [List.flatMap_nil, List.nil_append, readMdFile_eq, readConfiguration_unterminated tail _ htail]
    cases tail.foldlM (fun st line => processLine st (strip line)) Reading.init <;> rfl
  | s :: ss, hsteps, tail, htail => by
    obtain ⟨hl, hb⟩ := hsteps s (List.mem_cons_self _ _)
    have ih := readMdFile_steps_tail ss (fun s' h => hsteps s' (List.mem_cons_of_mem _ h)) tail htail
    have hstep : ∀ rest, readConfiguration potentials Reading.init (s.1 ++ s.2 :: rest) =
        buildConfiguration potentials s.1 >>= fun c => pure (some c, rest) := fun rest => by
      rw [readConfiguration_step _ _ hl hb, buildConfiguration, bind_assoc]
    rw [List.flatMap_cons, List.append_assoc, List.append_assoc, List.singleton_append, readMdFile_eq,
      hstep, List.mapM_cons]
    cases buildConfiguration potentials s.1 with
    | error e => rfl
    | ok c =>
      show (readMdFile potentials _).map (c :: ·) = _
      rw [ih]
      cases ss.mapM (fun s => buildConfiguration potentials s.1) <;>
        cases tail.foldlM (fun st line => processLine st (strip line)) Reading.init <;> rfl

theorem readMdFile_header {header : List String}
    (hheader : header = [] ∨ ∃ h a b c d, header = [h, a, b, c, d] ∧ strip h = "BEGIN header")
    (lines : List String) : readMdFile potentials (header ++ lines) = readMdFile potentials lines := by
  rcases hheader with rfl | ⟨h, a, b, c, d, rfl, hh⟩
  · rfl
  · rw [readMdFile_eq, readMdFile_eq lines]
    rw [show [h, a, b, c, d] ++ lines = h :: a :: b :: c :: d :: lines from rfl,
      readConfiguration_header hh]

/-- **An md file is read step by step.** For a file of an optional
`BEGIN header` line and the four lines it skips, then steps of lines that are
neither blank nor `BEGIN header`, each closed by a blank line, `read_md_file`
returns exactly what building each step on its own gives, in order: one
configuration per step, or the first step's error. -/
theorem read_md_file_steps (potentials : List (String × ℚ)) (header : List String)
    (steps : List (List String × String))
    (hheader : header = [] ∨ ∃ h a b c d, header = [h, a, b, c, d] ∧ strip h = "BEGIN header")
    (hsteps : ∀ s ∈ steps, (∀ l ∈ s.1, IsStepLine l) ∧ strip s.2 = "") :
    readMdFile potentials (header ++ steps.flatMap fun s => s.1 ++ [s.2]) =
      steps.mapM fun s => buildConfiguration potentials s.1 := by
  have h := @readMdFile_steps_tail potentials steps hsteps [] (by simp)
  rw [List.append_nil] at h
  rw [readMdFile_header hheader, h]
  cases steps.mapM fun s => buildConfiguration potentials s.1 <;> rfl

/-- A header and one step of one atom. -/
theorem read_md_file_steps_argon :
    readMdFile [] (["BEGIN header", "", "", "", ""] ++ [(["Ar 1 0 0 0 R"], "")].flatMap fun s => s.1 ++ [s.2]) =
      [(["Ar 1 0 0 0 R"], "")].mapM fun s => buildConfiguration [] s.1 :=
  read_md_file_steps [] _ _ (.inr ⟨_, _, _, _, _, rfl, by decide⟩) (by decide)

/-- The tags whose lines the loop body acts on: stress, energy, cell vector,
position and force. -/
def readTags : List String := ["S", "E", "h", "R", "F"]

/-- Whether the loop body acts on a line: a line tagged with one of
`readTags`, or one with no token, on which `split_line[-1]` raises
`IndexError`. -/
def readsLine (line : String) : Bool := (split (strip line)).getLast?.all readTags.contains

theorem pyGet_last {α : Type} (x : α) (xs : List α) :
    pyGet (x :: xs) (((x :: xs).length : Int) - 1) = .ok ((x :: xs).getLast (List.cons_ne_nil x xs)) := by
  have hi : pyIndex (x :: xs).length (((x :: xs).length : Int) - 1) = some xs.length := by
    have hpos : ¬((xs.length + 1 : Nat) : Int) - 1 < 0 := by omega
    have hin : 0 ≤ ((xs.length + 1 : Nat) : Int) - 1 ∧ ((xs.length + 1 : Nat) : Int) - 1 < (xs.length + 1 : Nat) := by
      omega
    simp only [pyIndex, List.length_cons, if_neg hpos, if_pos hin]
    exact congrArg some (by omega)
  have hx : (x :: xs)[xs.length]? = some ((x :: xs).getLast (List.cons_ne_nil x xs)) := by
    rw [List.getLast_eq_getElem, List.getElem?_eq_getElem]
    rfl
  simp only [pyGet, hi, Option.some_bind, hx]
  rfl

/-- A line of any other tag goes through the loop body and changes nothing. -/
theorem processLine_skip {st : Reading} {line : String} (h : readsLine line = false) :
    processLine st (strip line) = .ok st := by
  unfold readsLine at h
  cases hs : split (strip line) with
  | nil => rw [hs] at h; cases h
  | cons x xs =>
    rw [hs, List.getLast?_eq_getLast _ (List.cons_ne_nil x xs), Option.all_some] at h
    have hn : ∀ t ∈ readTags, (x :: xs).getLast (List.cons_ne_nil x xs) ≠ t := fun t ht heq => by
      subst heq
      exact Bool.false_ne_true (h.symm.trans (List.elem_eq_true_of_mem ht))
    simp only [readTags, List.forall_mem_cons] at hn
    obtain ⟨hS, hE, hh, hR, hF, -⟩ := hn
    simp only [processLine, hs, pyGet_last, except_ok_bind, processTag, if_neg hS, if_neg hE, if_neg hh,
      if_neg hR, if_neg hF]
    rfl

theorem foldlM_processLine_filter :
    ∀ (lines : List String) (st : Reading),
      lines.foldlM (fun st line => processLine st (strip line)) st =
        (lines.filter readsLine).foldlM (fun st line => processLine st (strip line)) st
  | [], _ => rfl
  | line :: lines, st => by
    rw [List.foldlM_cons]
    cases h : readsLine line with
    | true =>
      rw [List.filter_cons_of_pos h, List.foldlM_cons]
      congr 1
      funext st1
      exact foldlM_processLine_filter lines st1
    | false =>
      rw [List.filter_cons_of_neg (by rw [h]; decide), processLine_skip h, except_ok_bind]
      exact foldlM_processLine_filter lines st

/-- **Other lines are skipped.** A step's configuration, or its error, is
what its `S`, `E`, `h`, `R` and `F` lines and its lines without a token make:
lines of any other tag, such as velocities, temperature or pressure, are read
and change nothing. -/
theorem build_configuration_read_lines (lines : List String) :
    buildConfiguration potentials lines = buildConfiguration potentials (lines.filter readsLine) := by
  rw [buildConfiguration, buildConfiguration, foldlM_processLine_filter]

example : (["Ar 1 0 0 0 <-- R", "Ar 1 0 0 0 <-- V", "10.0 <-- T", "Ar 1 0 0 0 <-- F"].filter readsLine) =
    ["Ar 1 0 0 0 <-- R", "Ar 1 0 0 0 <-- F"] := by
  decide

end

end Potfit.Castep
