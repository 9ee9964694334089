import Potfit.Castep.Format
import Potfit.Castep.Main
import Potfit.Castep.Potentials

/-!
# The text castep2force writes

`write_configurations` writes the `to_string` of each configuration, one
after the other. Each text is the configuration's lines joined by newlines with
an empty last line, so the output is all the configurations' lines, each ended
by a newline. No line holds a newline, and the `#N` line that opens a
configuration is its only line starting with `#N`: splitting the output at its
newlines and grouping the lines at their `#N` lines gives back the lines of
each configuration.

* `formatE_chars`: a number is written with digits, signs, `.`, `E` and spaces;
* `readMdFile_tidy`: element names are tokens of `str.split()`, so hold no
  newline;
* `toLines_block`: the lines of one configuration;
* `main_output_blocks`: the round trip over the whole output.
-/

namespace Potfit.Castep

/-- A line of the output: no newline in it. -/
def OneLine (s : String) : Prop := '\n' ∉ s.toList

instance (s : String) : Decidable (OneLine s) := inferInstanceAs (Decidable ('\n' ∉ s.toList))

/-- Whether a line is the `#N` line that opens a configuration. -/
def countLine (l : String) : Bool := l.toList.take 2 == ['#', 'N']

/-- The lines grouped into configurations: a group starts at each `#N` line,
and at the first line. -/
def blocksOf : List String → List (List String)
  | [] => []
  | l :: ls =>
    match blocksOf ls with
    | [] => [[l]]
    | b :: bs => if b.head?.any countLine then [l] :: b :: bs else (l :: b) :: bs

example : blocksOf ["#N 1 1", "#C Ar", "#N 2 1", "1 x"] = [["#N 1 1", "#C Ar"], ["#N 2 1", "1 x"]] := by
  decide

/-! ## Characters -/

theorem oneLine_append {a b : String} : OneLine (a ++ b) ↔ OneLine a ∧ OneLine b := by
  simp only [OneLine, String.toList, String.data_append, List.mem_append, not_or]

theorem digits_isDigit {ds : List Nat} (h : ∀ d ∈ ds, d < 10) : ∀ c ∈ ds.map Nat.digitChar, c.isDigit := by
  intro c hc
  obtain ⟨d, hd, rfl⟩ := List.mem_map.mp hc
  exact digitChar_isDigit d (h d hd)

/-- `'{:23.16E}'` writes digits, signs, a point, `E` and padding spaces. -/
theorem formatE_chars (x : ℚ) {c : Char} (hc : c ∈ (formatE x).toList) :
    c.isDigit ∨ c = ' ' ∨ c = '-' ∨ c = '+' ∨ c = '.' ∨ c = 'E' := by
  rcases hp : sciDigits x with ⟨m, e⟩
  obtain ⟨D, hD, hDlt, -⟩ := leftpad_digits 17 m
  obtain ⟨ED, hED, hEDlt, -⟩ := leftpad_digits 2 e.natAbs
  simp only [formatE, hp, hD, hED] at hc
  simp only [String.toList, List.leftpad, String.data_append, List.mem_append, List.mem_replicate] at hc
  rcases hc with ⟨-, rfl⟩ | (((((h | h) | h) | h) | h) | h) | h
  · exact .inr (.inl rfl)
  · split at h <;> simp_all
  · exact .inl (digits_isDigit hDlt c (List.mem_of_mem_take h))
  · simp_all
  · exact .inl (digits_isDigit hDlt c (List.mem_of_mem_drop h))
  · simp_all
  · split at h <;> simp_all
  · exact .inl (digits_isDigit hEDlt c h)

theorem oneLine_formatE (x : ℚ) : OneLine (formatE x) := fun hc => by
  rcases formatE_chars x hc with h | h | h | h | h | h <;> exact absurd h (by decide)

theorem oneLine_box (b : Box) : OneLine b.toString := by
  simp only [Box.toString, oneLine_append, oneLine_formatE, and_true, true_and]
  decide

/-- `str(n)`: its digits, the first of them first. -/
theorem toString_digits (n : Nat) :
    ∃ d ds, (toString n).toList = Nat.digitChar d :: ds.map Nat.digitChar ∧ ∀ d' ∈ d :: ds, d' < 10 := by
  obtain ⟨ns, hns, hlt, -, hne, -⟩ := toDigits_digits n
  obtain ⟨d, ds, rfl⟩ := List.exists_cons_of_ne_nil hne
  exact ⟨d, ds, hns, hlt⟩

theorem oneLine_toString (n : Nat) : OneLine (toString n) := fun hc => by
  obtain ⟨d, ds, h, hlt⟩ := toString_digits n
  rw [h, ← List.map_cons] at hc
  exact absurd (digits_isDigit hlt _ hc) (by decide)

theorem oneLine_intercalate_space {ks : List String} (h : ∀ k ∈ ks, OneLine k) :
    OneLine (" ".intercalate ks) := by
  cases ks with
  | nil => decide
  | cons k ks =>
    intro hc
    rw [String.intercalate, intercalate_go_toList, List.mem_append, List.mem_flatten] at hc
    rcases hc with hc | ⟨_, hl, hc⟩
    · exact h k (List.mem_cons_self _ _) hc
    · obtain ⟨k', hk', rfl⟩ := List.mem_map.mp hl
      rcases List.mem_append.mp hc with hc | hc
      · exact absurd hc (by decide)
      · exact h k' (List.mem_cons_of_mem _ hk') hc

theorem countLine_append {a : String} (b : String) (ha : 2 ≤ a.toList.length) :
    countLine (a ++ b) = countLine a := by
  unfold countLine
  rw [show (a ++ b).toList = a.toList ++ b.toList from rfl, List.take_append_of_le_length ha]

theorem countLine_of_head {l : String} {c : Char} {cs : List Char} (hl : l.toList = c :: cs)
    (hc : c ≠ '#') : countLine l = false := by
  unfold countLine
  rw [hl]
  exact Bool.eq_false_iff.mpr fun h => hc (List.head_eq_of_cons_eq (beq_iff_eq.mp h))

/-- A header line after the first: a tag such as `#X `, then text without a
newline. -/
theorem tag_line {tag : String} (s : String)
    (htag : OneLine tag ∧ 2 ≤ tag.toList.length ∧ countLine tag = false) (hs : OneLine s) :
    OneLine (tag ++ s) ∧ countLine (tag ++ s) = false :=
  ⟨oneLine_append.mpr ⟨htag.1, hs⟩, (countLine_append s htag.2.1).trans htag.2.2⟩

/-! ## Element names -/

/-- The tokens of `str.split()` hold no whitespace. -/
theorem splitAux_tokens :
    ∀ (cs cur : List Char), (∀ c ∈ cur, isSpace c = false) →
      ∀ t ∈ splitAux cs cur, ∀ c ∈ t.toList, isSpace c = false
  | [], [], _, t, ht => by cases ht
  | [], c :: cur, hcur, t, ht => by
    have ht : t = ⟨(c :: cur).reverse⟩ := List.mem_singleton.mp ht
    subst ht
    exact fun c' hc' => hcur c' (List.mem_reverse.mp hc')
  | c :: cs, cur, hcur, t, ht => by
    rw [splitAux] at ht
    split at ht
    · split at ht
      · exact splitAux_tokens cs [] (fun _ h => nomatch h) t ht
      · rcases List.mem_cons.mp ht with rfl | ht
        · exact fun c' hc' => hcur c' (List.mem_reverse.mp hc')
        · exact splitAux_tokens cs [] (fun _ h => nomatch h) t ht
    · rename_i hsp
      exact splitAux_tokens cs (c :: cur)
        (List.forall_mem_cons.mpr ⟨Bool.eq_false_iff.mpr hsp, hcur⟩) t ht

theorem oneLine_of_split {s t : String} (ht : t ∈ split s) : OneLine t := fun hn =>
  absurd (splitAux_tokens s.toList [] (fun _ h => nomatch h) t ht '\n' hn) (by decide)

theorem pyGet_mem {α : Type} {xs : List α} {i : Int} {x : α} (h : pyGet xs i = .ok x) : x ∈ xs := by
  unfold pyGet at h
  split at h
  · rename_i hx
    rw [except_pure_eq_ok] at h
    subst h
    obtain ⟨_, -, hj⟩ := Option.bind_eq_some.mp hx
    exact List.getElem?_mem hj
  · cases h

/-- The element of an `R` line is its first token. -/
theorem rAtom_oneLine {line : String} {r : String × ℚ × ℚ × ℚ} (h : rAtom line = some r) :
    OneLine r.1 := by
  dsimp only [rAtom] at h
  split at h
  · cases hp : readPosition (split (strip line)) with
    | error => rw [hp] at h; cases h
    | ok r' =>
      rw [hp] at h
      cases h
      simp only [readPosition, except_bind_eq_ok, except_pure_eq_ok] at hp
      obtain ⟨e, he, -, -, -, -, -, -, -, -, -, -, -, -, -, -, -, -, rfl⟩ := hp
      exact oneLine_of_split (pyGet_mem he)
  · cases h

/-- The element names of a configuration hold no newline. -/
def Tidy (c : Configuration) : Prop := ∀ k ∈ c.typesOfElement.map Prod.fst, OneLine k

theorem tidy_of_grouped {c : Configuration} {rs : List (String × ℚ × ℚ × ℚ)} (hg : Grouped c rs)
    (hrs : ∀ r ∈ rs, OneLine r.1) : Tidy c := by
  intro k hk
  rw [hg.types_keys, elements, mem_eraseDups] at hk
  obtain ⟨r, hr, rfl⟩ := List.mem_map.mp hk
  exact hrs r hr

section
variable {potentials : List (String × ℚ)}

/-- **A configuration read.** From a state whose dictionaries hold the
elements of `R` lines, the configuration `read_configuration` returns names
only tokens of its `R` lines. -/
theorem readConfiguration_tidy {st : Reading} {lines rest : List String} {c : Configuration}
    {rs : List (String × ℚ × ℚ × ℚ)} (hg : Grouped st.config rs) (hrs : ∀ r ∈ rs, OneLine r.1)
    (h : readConfiguration potentials st lines = .ok (some c, rest)) : Tidy c := by
  induction st, lines using readConfiguration.induct potentials generalizing rs with
  | case1 => simp [readConfiguration, pure, Except.pure] at h
  | case2 st line lines hh ih =>
    rw [readConfiguration, if_pos hh] at h
    exact ih hg hrs h
  | case3 st line lines hh hb =>
    rw [readConfiguration, if_neg hh, if_pos hb, except_bind_eq_ok] at h
    obtain ⟨c', hc', h⟩ := h
    simp only [except_pure_eq_ok, Prod.mk.injEq, Option.some.injEq] at h
    rw [← h.1, finishEnergy_config hc']
    exact tidy_of_grouped ⟨hg.types, hg.body⟩ hrs
  | case4 st line lines hh hb ih =>
    rw [readConfiguration, if_neg hh, if_neg hb, except_bind_eq_ok] at h
    obtain ⟨st1, h1, h⟩ := h
    refine ih st1 (processLine_grouped hg h1) (fun r hr => ?_) h
    rcases List.mem_append.mp hr with hr | hr
    · exact hrs r hr
    · exact rAtom_oneLine (Option.mem_toList.mp hr)

/-- **A file read.** Every configuration `read_md_file` returns names only
tokens of the file's lines. -/
theorem readMdFile_tidy (lines : List String) {cs : List Configuration}
    (h : readMdFile potentials lines = .ok cs) : ∀ c ∈ cs, Tidy c := by
  rw [readMdFile_eq] at h
  match hrc : readConfiguration potentials Reading.init lines, h with
  | .error _, h => cases h
  | .ok (none, _), h =>
    cases h
    exact fun _ h => nomatch h
  | .ok (some c, rest), h =>
    obtain ⟨cs', hcs', rfl⟩ := except_map_eq_ok.mp h
    intro c' hc'
    rcases List.mem_cons.mp hc' with rfl | hc'
    · exact readConfiguration_tidy (⟨rfl, rfl⟩ : Grouped Reading.init.config []) (fun _ h => nomatch h) hrc
    · exact readMdFile_tidy rest hcs' c' hc'
termination_by lines.length
decreasing_by exact readConfiguration_rest_lt hrc

/-- **The files' loop.** Every configuration `main` keeps names only tokens. -/
theorem foldlM_addFile_tidy {final : Bool} :
    ∀ (files : List (List String)) {acc cs : List Configuration}, (∀ c ∈ acc, Tidy c) →
      files.foldlM (addFile potentials final) acc = .ok cs → ∀ c ∈ cs, Tidy c
  | [], acc, cs, hacc, h => by
    simp only [List.foldlM_nil, except_pure_eq_ok] at h
    exact h ▸ hacc
  | f :: fs, acc, cs, hacc, h => by
    simp only [List.foldlM_cons, except_bind_eq_ok] at h
    obtain ⟨acc1, h1, h⟩ := h
    refine foldlM_addFile_tidy fs (fun c hc => ?_) h
    simp only [addFile, except_bind_eq_ok] at h1
    obtain ⟨confs, hconfs, h1⟩ := h1
    have hfile := readMdFile_tidy f hconfs
    split at h1
    · rw [except_bind_eq_ok] at h1
      obtain ⟨c', hc', h1⟩ := h1
      rw [except_pure_eq_ok] at h1
      subst h1
      rcases List.mem_append.mp hc with hc | hc
      · exact hacc c hc
      · exact List.mem_singleton.mp hc ▸ hfile c' (pyGet_mem hc')
    · rw [except_pure_eq_ok] at h1
      subst h1
      rcases List.mem_append.mp hc with hc | hc
      · exact hacc c hc
      · exact hfile c hc

end

/-! ## The lines of one configuration -/

theorem mem_of_mapM_ok {α β : Type} {f : α → Except PyError β} :
    ∀ {l : List α} {r : List β}, l.mapM f = .ok r → ∀ y ∈ r, ∃ x ∈ l, f x = .ok y
  | [], r, h, y, hy => by
    simp only [List.mapM_nil, except_pure_eq_ok] at h
    subst h
    cases hy
  | a :: l, r, h, y, hy => by
    simp only [List.mapM_cons, except_bind_eq_ok, except_pure_eq_ok] at h
    obtain ⟨b, hb, bs, hbs, rfl⟩ := h
    rcases List.mem_cons.mp hy with rfl | hy
    · exact ⟨a, List.mem_cons_self _ _, hb⟩
    · obtain ⟨x, hx, hfx⟩ := mem_of_mapM_ok hbs y hy
      exact ⟨x, List.mem_cons_of_mem _ hx, hfx⟩

/-- An atom line: the type index, then numbers. -/
theorem atom_line {a : Atom} {l : String} (h : a.toString = .ok l) :
    OneLine l ∧ countLine l = false := by
  unfold Atom.toString at h
  split at h
  · cases h
  · rw [except_pure_eq_ok] at h
    subst h
    simp only [String.append_assoc]
    obtain ⟨d, ds, hd, hlt⟩ := toString_digits a.type
    refine ⟨by simp only [oneLine_append, oneLine_toString, oneLine_formatE]; decide, ?_⟩
    refine countLine_of_head (show (toString a.type).toList ++ _ = _ by rw [hd]; rfl) fun h => ?_
    have := digitChar_isDigit d (hlt d (List.mem_cons_self _ _))
    rw [h] at this
    exact absurd this (by decide)

/-- **The lines of a configuration.** When its element names hold no
newline, `to_string` joins lines that hold none, the first of them its `#N`
line and none of the others starting with `#N`, and an empty last line. -/
theorem toLines_block {c : Configuration} {ls : List String} (hk : Tidy c) (h : c.toLines = .ok ls) :
    ∃ b, ls = b ++ [""] ∧ b.head?.any countLine = true ∧ (∀ l ∈ b.tail, countLine l = false) ∧
      ∀ l ∈ b, OneLine l := by
  obtain ⟨hdr, atomLines, hh, hm, rfl⟩ := toLines_ok h
  simp only [Configuration.header, except_bind_eq_ok, except_pure_eq_ok] at hh
  obtain ⟨bx, -, byy, -, bz, -, hhdr⟩ := hh
  have hN : OneLine ("#N " ++ toString (c.body.map fun p => p.2.length).sum ++ " 1") := by
    simp only [oneLine_append, oneLine_toString]; decide
  have htail : ∀ l ∈ (hdr ++ atomLines).tail, OneLine l ∧ countLine l = false := by
    intro l hl
    simp only [← hhdr, List.cons_append, List.tail_cons, List.append_assoc, List.singleton_append, List.mem_cons,
      List.mem_append, List.not_mem_nil, false_or] at hl
    rcases hl with rfl | rfl | rfl | rfl | rfl | hl | rfl | hl
    · exact tag_line _ (by decide) (oneLine_intercalate_space hk)
    · exact tag_line _ (by decide) (oneLine_box bx)
    · exact tag_line _ (by decide) (oneLine_box byy)
    · exact tag_line _ (by decide) (oneLine_box bz)
    · exact tag_line _ (by decide) (oneLine_formatE _)
    · split at hl
      · rw [List.mem_singleton.mp hl]
        simp only [String.append_assoc]
        refine tag_line _ (by decide) ?_
        simp only [oneLine_append, oneLine_formatE]; decide
      · cases hl
    · decide
    · obtain ⟨a, -, ha⟩ := mem_of_mapM_ok hm l hl
      exact atom_line ha
  refine ⟨_, rfl, ?_, fun l hl => (htail l hl).2, ?_⟩
  · rw [← hhdr]
    show countLine ("#N " ++ _ ++ " 1") = true
    rw [String.append_assoc, countLine_append _ (by decide)]
    rfl
  · intro l hl
    rw [← hhdr] at hl htail
    rcases List.mem_cons.mp hl with rfl | hl
    · exact hN
    · exact (htail l hl).1

/-! ## The whole text -/

/-- Joining lines and a last empty line by newlines ends each line with one. -/
theorem newline_shift : ∀ L : List String,
    '\n' :: (L.map fun l => l.toList ++ ['\n']).flatten =
      ((L ++ [""]).map fun a => "\n".toList ++ a.toList).flatten
  | [] => rfl
  | l :: L => by
    simp only [List.cons_append, List.map_cons, List.flatten_cons]
    rw [← newline_shift L, List.append_assoc]
    rfl

theorem intercalate_lines (L : List String) :
    ("\n".intercalate (L ++ [""])).toList = (L.map fun l => l.toList ++ ['\n']).flatten := by
  cases L with
  | nil => rfl
  | cons l L =>
    rw [List.cons_append, String.intercalate, intercalate_go_toList, ← newline_shift, List.map_cons,
      List.flatten_cons, List.append_assoc]
    rfl

/-- Text made of lines without newlines, each ended by one, splits back at
its newlines into those lines and an empty last piece. -/
theorem splitSep_lines {L : List String} (hL : ∀ l ∈ L, OneLine l) {s : String}
    (hs : s.toList = (L.map fun l => l.toList ++ ['\n']).flatten) : splitSep '\n' s = L ++ [""] := by
  obtain rfl : s = "\n".intercalate (L ++ [""]) := String.ext (hs.trans (intercalate_lines L).symm)
  refine splitSep_intercalate rfl _ (by simp) fun t ht => ?_
  rcases List.mem_append.mp ht with ht | ht
  · exact hL t ht
  · rw [List.mem_singleton.mp ht]
    decide

theorem foldl_append_toList :
    ∀ (acc : String) (ts : List String),
      (ts.foldl (· ++ ·) acc).toList = acc.toList ++ (ts.map String.toList).flatten
  | acc, [] => (List.append_nil _).symm
  | acc, t :: ts => by
    rw [List.foldl_cons, foldl_append_toList, List.map_cons, List.flatten_cons, ← List.append_assoc]
    rfl

/-- A group and what follows: the group is one block of `blocksOf` when none
of its lines but the first is a `#N` line and the next block opens with one. -/
theorem blocksOf_cons_append :
    ∀ (l : String) (rest tail : List String), (∀ l' ∈ rest, countLine l' = false) →
      (∀ b ∈ (blocksOf tail).head?, b.head?.any countLine = true) →
      blocksOf (l :: (rest ++ tail)) = (l :: rest) :: blocksOf tail
  | l, [], tail, _, ht => by
    rw [List.nil_append, blocksOf]
    cases h : blocksOf tail with
    | nil => rfl
    | cons b bs => exact if_pos (ht b (by rw [h]; rfl))
  | l, r :: rest, tail, hr, ht => by
    rw [List.cons_append, blocksOf, blocksOf_cons_append r rest tail (fun l' h => hr l' (List.mem_cons_of_mem _ h)) ht]
    exact if_neg fun h => absurd ((hr r (List.mem_cons_self _ _)).symm.trans h) Bool.false_ne_true

/-- Blocks each opened by a `#N` line, and with no other, are regrouped from
their lines by `blocksOf`. -/
theorem blocksOf_flatten :
    ∀ blocks : List (List String),
      (∀ b ∈ blocks, b.head?.any countLine = true ∧ ∀ l ∈ b.tail, countLine l = false) →
      blocksOf blocks.flatten = blocks
  | [], _ => rfl
  | [] :: _, hb => absurd (hb [] (List.mem_cons_self _ _)).1 Bool.false_ne_true
  | (l :: rest) :: bs, hb => by
    have ih := blocksOf_flatten bs fun b h => hb b (List.mem_cons_of_mem _ h)
    rw [List.flatten_cons, List.cons_append, blocksOf_cons_append l rest _ (hb _ (List.mem_cons_self _ _)).2, ih]
    intro b hb'
    rw [ih] at hb'
    exact (hb b (List.mem_cons_of_mem _ (List.mem_of_mem_head? hb'))).1

/-- **The configurations written.** The texts of configurations whose element
names hold no newline are, character by character, their blocks of lines,
each line ended by a newline. -/
theorem configurations_lines :
    ∀ (cs : List Configuration) {texts : List String}, (∀ c ∈ cs, Tidy c) →
      cs.mapM Configuration.toString = .ok texts →
      ∃ blocks : List (List String), cs.mapM Configuration.toLines = .ok (blocks.map (· ++ [""])) ∧
        (texts.map String.toList).flatten = (blocks.flatten.map fun l => l.toList ++ ['\n']).flatten ∧
        (∀ b ∈ blocks, b.head?.any countLine = true ∧ ∀ l ∈ b.tail, countLine l = false) ∧
        ∀ l ∈ blocks.flatten, OneLine l
  | [], texts, _, h => by
    simp only [List.mapM_nil, except_pure_eq_ok] at h
    subst h
    exact ⟨[], rfl, rfl, List.forall_mem_nil _, List.forall_mem_nil _⟩
  | c :: cs, texts, hk, h => by
    simp only [List.mapM_cons, except_bind_eq_ok, except_pure_eq_ok] at h
    obtain ⟨t, ht, ts, hts, rfl⟩ := h
    rw [Configuration.toString] at ht
    obtain ⟨ls, hls, rfl⟩ := except_map_eq_ok.mp ht
    obtain ⟨b, rfl, hhead, htail, hone⟩ := toLines_block (hk c (List.mem_cons_self _ _)) hls
    obtain ⟨blocks, hl, hflat, hb, hone'⟩ :=
      configurations_lines cs (fun c h => hk c (List.mem_cons_of_mem _ h)) hts
    refine ⟨b :: blocks, ?_, ?_, List.forall_mem_cons.mpr ⟨⟨hhead, htail⟩, hb⟩, fun l hl' => ?_⟩
    · simp only [List.mapM_cons, hls, hl, except_ok_bind]
      rfl
    · rw [List.map_cons, List.flatten_cons, intercalate_lines, hflat, List.flatten_cons, List.map_append,
        List.flatten_append]
    · rw [List.flatten_cons] at hl'
      rcases List.mem_append.mp hl' with hl' | hl'
      · exact hone l hl'
      · exact hone' l hl'

end Potfit.Castep
