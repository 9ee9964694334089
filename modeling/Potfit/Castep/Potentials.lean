import Potfit.Castep.Read

/-!
# The chemical potentials

`parse_potentials` splits the `--potential` text at its commas, each piece at
its `=`, and sets `potentials[values[0].strip()] = float(values[1])`:

* `splitSep_intercalate`: splitting pieces joined by a separator gives the
  pieces back, when none of them holds it;
* `foldlM_setPotential`: the loop over `name=value` pieces;
* `parse_potentials_lookup`: for `name=value` pairs joined by commas, the
  potential of an element is the value of the last pair that names it;
* `parse_potentials_no_equals`: a piece without `=` after such pairs (a
  trailing comma, an empty text, a forgotten `=`) raises `IndexError`.
-/

namespace Potfit.Castep

theorem intercalate_go_toList (t : String) :
    ∀ (acc : String) (as : List String),
      (String.intercalate.go acc t as).toList = acc.toList ++ (as.map fun a => t.toList ++ a.toList).flatten
  | acc, [] => by simp [String.intercalate.go]
  | acc, a :: as => by
    rw [String.intercalate.go, intercalate_go_toList]
    simp [String.toList, String.data_append]

theorem splitOn_pieces (sep : Char) :
    ∀ (a : List Char) (as : List (List Char)), sep ∉ a → (∀ b ∈ as, sep ∉ b) →
      (a ++ (as.map (sep :: ·)).flatten).splitOn sep = a :: as
  | a, [], ha, _ => by
    rw [List.map_nil, List.flatten_nil, List.append_nil, List.splitOn]
    exact List.splitOnP_eq_single (· == sep) a fun x hx hp => ha (eq_of_beq hp ▸ hx)
  | a, b :: bs, ha, hb => by
    rw [List.map_cons, List.flatten_cons, List.cons_append, List.splitOn,
      List.splitOnP_first (· == sep) a (fun x hx hp => ha (eq_of_beq hp ▸ hx)) sep (beq_self_eq_true sep),
      ← List.splitOn, splitOn_pieces sep b bs (hb b (List.mem_cons_self _ _))
        fun c hc => hb c (List.mem_cons_of_mem _ hc)]

/-- `t.join(ss).split(sep)` is `ss` when `t` is the one character `sep` and no
piece holds it. -/
theorem splitSep_intercalate {sep : Char} {t : String} (ht : t.toList = [sep]) :
    ∀ (ss : List String), ss ≠ [] → (∀ s ∈ ss, sep ∉ s.toList) → splitSep sep (t.intercalate ss) = ss
  | [], h, _ => absurd rfl h
  | s :: ss, _, hs => by
    have hcat : (t.intercalate (s :: ss)).toList = s.toList ++ ((ss.map String.toList).map (sep :: ·)).flatten := by
      rw [String.intercalate, intercalate_go_toList, ht, List.map_map]
      rfl
    rw [splitSep, hcat, splitOn_pieces sep _ _ (hs s (List.mem_cons_self _ _))]
    · simp [Function.comp_def]
    · simpa using fun b hb => hs b (List.mem_cons_of_mem _ hb)

/-- A `name=value` piece sets the stripped name to the value `float` reads. -/
theorem setPotential_pair (d : List (String × ℚ)) {k t : String} (hk : '=' ∉ k.toList)
    (ht : '=' ∉ t.toList) : setPotential d (k ++ "=" ++ t) = (pyFloat t).map (odSet d (strip k)) := by
  have hs : splitSep '=' (k ++ "=" ++ t) = [k, t] :=
    splitSep_intercalate (t := "=") rfl [k, t] (List.cons_ne_nil _ _)
      (by simp only [List.mem_cons, List.not_mem_nil, or_false, forall_eq_or_imp, forall_eq]; exact ⟨hk, ht⟩)
  have h1 : pyGet [k, t] 1 = .ok t := rfl
  have h0 : pyGet [k, t] 0 = .ok k := rfl
  simp only [setPotential, hs, h1, h0, except_ok_bind]
  cases pyFloat t <;> rfl

/-- A piece without `=` raises `IndexError`. -/
theorem setPotential_no_equals (d : List (String × ℚ)) {t : String} (ht : '=' ∉ t.toList) :
    setPotential d t = .error .indexError := by
  have hs : splitSep '=' t = [t] :=
    splitSep_intercalate (t := "=") rfl [t] (List.cons_ne_nil _ _) (by simpa using ht)
  rw [setPotential, hs]
  rfl

/-- The loop over `name=value` pieces whose values `float` reads. -/
theorem foldlM_setPotential :
    ∀ (ps : List (String × String)) (vs : List ℚ) (d : List (String × ℚ)),
      (∀ p ∈ ps, '=' ∉ p.1.toList ∧ '=' ∉ p.2.toList) → ps.mapM (fun p => pyFloat p.2) = .ok vs →
      (ps.map fun p => p.1 ++ "=" ++ p.2).foldlM setPotential d =
        .ok (((ps.map fun p => strip p.1).zip vs).foldl (fun d kv => odSet d kv.1 kv.2) d)
  | [], vs, d, _, hv => by
    simp only [List.mapM_nil, except_pure_eq_ok] at hv
    subst hv
    rfl
  | p :: ps, vs, d, hsep, hv => by
    simp only [List.mapM_cons, except_bind_eq_ok, except_pure_eq_ok] at hv
    obtain ⟨v, hv1, vs', hv', rfl⟩ := hv
    obtain ⟨hk, ht⟩ := hsep p (List.mem_cons_self _ _)
    rw [List.map_cons, List.foldlM_cons, setPotential_pair d hk ht, hv1]
    exact foldlM_setPotential ps vs' _ (fun q hq => hsep q (List.mem_cons_of_mem _ hq)) hv'

/-- After a run of `d[k] = v`, a key holds the last value set for it, or its
old value. -/
theorem lookup_foldl_odSet {α : Type} :
    ∀ (L : List (String × α)) (d : List (String × α)) (k : String),
      (L.foldl (fun d kv => odSet d kv.1 kv.2) d).lookup k = (L.reverse.lookup k).or (d.lookup k)
  | [], d, k => rfl
  | (a, b) :: L, d, k => by
    rw [List.foldl_cons, lookup_foldl_odSet L, lookup_odSet, List.reverse_cons, List.lookup_append,
      Option.or_assoc]
    by_cases h : k = a
    · simp [h, List.lookup_cons]
    · simp [h, List.lookup_cons, beq_false_of_ne h]

section
variable (ps : List (String × String)) (vs : List ℚ)

theorem pieces_no_comma (hsep : ∀ p ∈ ps, ',' ∉ p.1.toList ∧ ',' ∉ p.2.toList) :
    ∀ s ∈ ps.map (fun p => p.1 ++ "=" ++ p.2), ',' ∉ s.toList := by
  simp only [List.mem_map]
  rintro s ⟨p, hp, rfl⟩
  simp only [String.toList, String.data_append, List.mem_append, List.mem_singleton, not_or]
  exact ⟨⟨(hsep p hp).1, by decide⟩, (hsep p hp).2⟩

/-- **`--potential`.** For `name=value` pairs with no comma or `=` in them,
whose values `float` reads, joined by commas: `parse_potentials` accepts the
text, and the potential it gives an element is the value of the last pair
whose name, stripped, is the element; none when no pair names it. -/
theorem parse_potentials_lookup (hne : ps ≠ [])
    (hsep : ∀ p ∈ ps, ',' ∉ p.1.toList ∧ '=' ∉ p.1.toList ∧ ',' ∉ p.2.toList ∧ '=' ∉ p.2.toList)
    (hv : ps.mapM (fun p => pyFloat p.2) = .ok vs) :
    ∃ d, parsePotentials (",".intercalate (ps.map fun p => p.1 ++ "=" ++ p.2)) = .ok d ∧
      ∀ k, d.lookup k = ((ps.map fun p => strip p.1).zip vs).reverse.lookup k := by
  rw [parsePotentials, splitSep_intercalate rfl _ (by simpa using hne)
      (pieces_no_comma ps fun p hp => ⟨(hsep p hp).1, (hsep p hp).2.2.1⟩),
    foldlM_setPotential ps vs [] (fun p hp => ⟨(hsep p hp).2.1, (hsep p hp).2.2.2⟩) hv]
  refine ⟨_, rfl, fun k => ?_⟩
  rw [lookup_foldl_odSet, List.lookup_nil, Option.or_none]

theorem parse_potentials_lookup_argon :
    ∃ vs d, parsePotentials (",".intercalate ([("Ar", "0.01"), ("Si", "0.02"), (" Ar ", "1e-3")].map
        fun p => p.1 ++ "=" ++ p.2)) = .ok d ∧
      d.lookup "Ar" = ((["Ar", "Si", "Ar"]).zip vs).reverse.lookup "Ar" :=
  ⟨_, (parse_potentials_lookup [("Ar", "0.01"), ("Si", "0.02"), (" Ar ", "1e-3")] _ (by decide)
    (by decide) rfl).imp fun _ h => ⟨h.1, h.2 "Ar"⟩⟩

/-- **A piece without `=`** after `name=value` pairs, such as the empty piece
a trailing comma leaves, or a whole empty text, makes `parse_potentials` raise
`IndexError`. -/
theorem parse_potentials_no_equals
    (hsep : ∀ p ∈ ps, ',' ∉ p.1.toList ∧ '=' ∉ p.1.toList ∧ ',' ∉ p.2.toList ∧ '=' ∉ p.2.toList)
    (hv : ps.mapM (fun p => pyFloat p.2) = .ok vs) {t : String} (ht : ',' ∉ t.toList ∧ '=' ∉ t.toList) :
    parsePotentials (",".intercalate ((ps.map fun p => p.1 ++ "=" ++ p.2) ++ [t])) = .error .indexError := by
  have hno := pieces_no_comma ps fun p hp => ⟨(hsep p hp).1, (hsep p hp).2.2.1⟩
  rw [parsePotentials, splitSep_intercalate rfl _ (by simp) fun s hs => (List.mem_append.mp hs).elim (hno s) fun h => (List.mem_singleton.mp h) ▸ ht.1,
    List.foldlM_append, foldlM_setPotential ps vs [] (fun p hp => ⟨(hsep p hp).2.1, (hsep p hp).2.2.2⟩) hv]
  simp only [List.foldlM_cons, List.foldlM_nil, except_ok_bind, setPotential_no_equals _ ht.2]
  rfl

theorem parse_potentials_trailing_comma :
    ∃ vs, [("Ar", "0.01")].mapM (fun p => pyFloat p.2) = .ok vs ∧
      parsePotentials (",".intercalate (([("Ar", "0.01")].map fun p => p.1 ++ "=" ++ p.2) ++ [""])) =
        .error .indexError :=
  ⟨_, rfl, parse_potentials_no_equals [("Ar", "0.01")] _ (by decide) rfl (by decide)⟩

end

end Potfit.Castep
