import Potfit.Castep.Groups

/-!
# What `to_string` prints for a step

`Configuration.to_string` prints the header, then the atoms of `body` in
order. Over a configuration built from one step, `Grouped` says what `body`
holds, so:

* `groups_count`: the groups hold as many atoms as there are `R` lines;
* `to_string_groups`: the output has a `#N n 1` line with `n` the number of
  `R` lines, a `#C` line listing the elements in order of first appearance,
  and `n` atom lines, grouped by type index and in `R`-line order within a
  group.
-/

namespace Potfit.Castep

theorem sum_map_ite_eq {K : List String} (hK : K.Nodup) (x : String) :
    (K.map fun e => if x = e then 1 else 0).sum = if x ∈ K then 1 else 0 := by
  induction K with
  | nil => simp
  | cons k K ih =>
    obtain ⟨hk, hK'⟩ := List.nodup_cons.mp hK
    by_cases hx : x = k
    · subst hx
      simp [ih hK', hk]
    · simp [ih hK', hx]

/-- Counting the `R` lines element by element, over distinct elements that
include every element of `rs`, counts every line once. -/
theorem sum_filter_length {K : List String} (hK : K.Nodup) :
    ∀ (rs : List (String × ℚ × ℚ × ℚ)), (∀ r ∈ rs, r.1 ∈ K) →
      (K.map fun e => (rs.filter (·.1 == e)).length).sum = rs.length
  | [], _ => by simp
  | r :: rs, hrs => by
    have ih := sum_filter_length hK rs fun r' hr' => hrs r' (List.mem_cons_of_mem r hr')
    have hsplit : (K.map fun e => ((r :: rs).filter (·.1 == e)).length) =
        (K.map fun e => (rs.filter (·.1 == e)).length + if r.1 = e then 1 else 0) := by
      apply List.map_congr_left
      intro e _
      by_cases h : r.1 = e <;> simp [List.filter_cons, h]
    rw [hsplit, List.sum_map_add, ih, sum_map_ite_eq hK, if_pos (hrs r (List.mem_cons_self r rs))]
    rfl

/-- **The groups hold every `R` line once.** -/
theorem groups_count (rs : List (String × ℚ × ℚ × ℚ)) :
    ((groups rs).map fun g => g.2.length).sum = rs.length := by
  have hmap : ((groups rs).map fun g => g.2.length) =
      (elements rs).map fun e => (rs.filter (·.1 == e)).length := by
    simp only [groups, List.map_map, Function.comp_def, List.length_map]
    conv_rhs => rw [← List.enum_map_snd (elements rs), List.map_map]
    rfl
  rw [hmap]
  exact sum_filter_length (nodup_eraseDups _) rs fun r hr =>
    mem_eraseDups.mpr (List.mem_map_of_mem Prod.fst hr)

theorem length_of_mapM_ok {α β : Type} {f : α → Except PyError β} :
    ∀ {l : List α} {r : List β}, l.mapM f = .ok r → r.length = l.length
  | [], r, h => by
    simp only [List.mapM_nil, except_pure_eq_ok] at h
    subst h; rfl
  | a :: l, r, h => by
    simp only [List.mapM_cons, except_bind_eq_ok, except_pure_eq_ok] at h
    obtain ⟨b, -, bs, hbs, rfl⟩ := h
    simp [length_of_mapM_ok hbs]

/-- The lines `to_string` joins: the header lines, the atom lines, an empty line. -/
theorem toLines_ok {c : Configuration} {ls : List String} (h : c.toLines = .ok ls) :
    ∃ hdr atomLines, c.header = .ok hdr ∧
      (c.body.flatMap Prod.snd).mapM Atom.toString = .ok atomLines ∧ ls = hdr ++ atomLines ++ [""] := by
  simp only [Configuration.toLines, except_bind_eq_ok, except_pure_eq_ok] at h
  obtain ⟨hdr, hh, atomLines, ha, rfl⟩ := h
  exact ⟨hdr, atomLines, hh, ha, rfl⟩

/-- The header: `#N` with the number of atoms, `#C` with the elements, then
five or six lines, each starting with `#`. -/
theorem header_ok {c : Configuration} {hdr : List String} (h : c.header = .ok hdr) :
    ∃ rest, hdr = ("#N " ++ toString (c.body.map fun p => p.2.length).sum ++ " 1") ::
        ("#C " ++ " ".intercalate (c.typesOfElement.map Prod.fst)) :: rest ∧
      (rest.length = 5 ∨ rest.length = 6) ∧ ∀ l ∈ rest, ∃ s, l = "#" ++ s := by
  simp only [Configuration.header, except_bind_eq_ok, except_pure_eq_ok] at h
  obtain ⟨bx, -, byy, -, bz, -, rfl⟩ := h
  have hash : ∀ l : String, l.data.head? = some '#' → ∃ t, l = "#" ++ t := by
    rintro ⟨_ | ⟨c, cs⟩⟩ h
    · simp at h
    · simp only [List.head?_cons, Option.some.injEq] at h
      subst h
      exact ⟨⟨cs⟩, rfl⟩
  refine ⟨_, rfl, ?_, fun l hl => hash l ?_⟩
  · split <;> simp [List.append_eq]
  · simp only [List.append_eq, List.cons_append, List.mem_cons, List.mem_append, List.mem_singleton,
      List.not_mem_nil, or_false] at hl
    rcases hl with rfl | rfl | rfl | rfl | hl | rfl
    any_goals rfl
    split at hl
    · simp only [List.mem_singleton, false_or] at hl
      subst hl
      rfl
    · simp at hl

section
variable {c : Configuration} {rs : List (String × ℚ × ℚ × ℚ)}

theorem Grouped.count (hg : Grouped c rs) : (c.body.map fun p => p.2.length).sum = rs.length := by
  rw [← groups_count, ← hg.body, shape, List.map_map]
  simp [Function.comp_def]

/-- The atoms of `body`, in order, have the sites `groups` lists. -/
theorem Grouped.sites (hg : Grouped c rs) :
    (c.body.flatMap Prod.snd).map Atom.site = (elements rs).enum.flatMap fun te =>
      (rs.filter (·.1 == te.2)).map fun r => (te.1, r.2) := by
  have := congrArg (List.flatMap · Prod.snd) hg.body
  simp only [shape, groups, List.flatMap_map] at this
  rw [List.map_flatMap, this]

end

/-- **What `to_string` prints for a step.** For every step that
`read_configuration` turns into a configuration `to_string` renders: the
output's lines are `#N n 1`, with `n` the number of `R` lines; `#C` and the
elements of the `R` lines, each once, in order of first appearance; five or
six more header lines, each starting with `#`; and `n` atom lines. The atoms
are, element by element in the order of `#C`, the element's `R` lines in file
order, each under the element's place in `#C` as its type index. -/
theorem to_string_groups {potentials : List (String × ℚ)} {lines : List String} {c : Configuration}
    {ls : List String} (hc : buildConfiguration potentials lines = .ok c) (hs : c.toLines = .ok ls) :
    c.toString = .ok ("\n".intercalate ls) ∧ (elements (rAtoms lines)).Nodup ∧
    ∃ (rest atomLines : List String) (atoms : List Atom),
      ls = ("#N " ++ toString (rAtoms lines).length ++ " 1") ::
        ("#C " ++ " ".intercalate (elements (rAtoms lines))) :: rest ++ atomLines ++ [""] ∧
      (rest.length = 5 ∨ rest.length = 6) ∧ (∀ l ∈ rest, ∃ s, l = "#" ++ s) ∧
      atoms.mapM Atom.toString = .ok atomLines ∧ atomLines.length = (rAtoms lines).length ∧
      atoms.map Atom.site = (elements (rAtoms lines)).enum.flatMap fun te =>
        ((rAtoms lines).filter (·.1 == te.2)).map fun r => (te.1, r.2) := by
  have hg := buildConfiguration_grouped hc
  refine ⟨by simp [Configuration.toString, hs, Except.map], nodup_eraseDups _, ?_⟩
  obtain ⟨hdr, atomLines, hh, hm, rfl⟩ := toLines_ok hs
  obtain ⟨rest, rfl, hlen, hhash⟩ := header_ok hh
  refine ⟨rest, atomLines, c.body.flatMap Prod.snd, by rw [hg.count, hg.types_keys], hlen,
    hhash, hm, ?_, hg.sites⟩
  rw [length_of_mapM_ok hm, List.length_flatMap]
  exact hg.count

theorem to_string_groups_argon :
    ∃ c ls, buildConfiguration [] ["1 0 0 h", "0 1 0 h", "0 0 1 h", "Ar 1 0 0 0 R", "Ar 1 0 0 0 F"] = .ok c ∧
      c.toLines = .ok ls ∧ c.toString = .ok ("\n".intercalate ls) :=
  ⟨_, _, rfl, rfl, (@to_string_groups [] ["1 0 0 h", "0 1 0 h", "0 0 1 h", "Ar 1 0 0 0 R",
    "Ar 1 0 0 0 F"] _ _ rfl rfl).1⟩

end Potfit.Castep
