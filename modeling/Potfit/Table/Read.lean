import Potfit.Table.Header

/-!
# The input loop of `read_pot_table3`

After the info block, `read_pot_table3` walks the pointer `val` through
`table` while it reads the values, one read loop per role. For each function
it stores two gradient values (from the file, or the role's defaults), then its
samples; beside it, `l` counts the slots and `k` the free ones, recorded in
`idx`. The nine loops of the source differ only in their role's data
(`Role.defaults`, the messages, `sampleFree`) and in the F loop's gauge check,
so they are one loop here, `readFunction`, run over `schedule`.

The file after the info block is the list of values `%lf` scans, up to the
first it cannot read. `Malloc` is taken to succeed.
-/

namespace Potfit.Table

/-- The `potential_state` fields the reader uses. -/
structure PotentialState where
  filename : String
  numPots : Nat
  haveGradient : Bool

/-- The globals the read loops consult: `g_calc.paircol`, `g_param.ntypes`,
`g_pot.invar_pot` and `g_pot.gradient`. -/
structure Globals where
  paircol : Nat
  ntypes : Nat
  invarPot : Nat → Int
  gradient : Nat → Int

/-- `m` with `x` stored at offset `p`. -/
def store {α : Type} (m : Nat → Option α) (p : Nat) (x : α) : Nat → Option α :=
  Function.update m p (some x)

/-- The locals of the input loop and the buffers it fills: `val` as an offset
into `table`, the counters `k` and `l`, and the values not yet read. A buffer
maps an offset to what was stored there, `none` where nothing was. -/
structure Reader where
  val : Nat
  k : Nat
  l : Nat
  table : Nat → Option ℚ
  xcoord : Nat → Option ℚ
  idx : Nat → Option Nat
  rest : List ℚ

/-- The state at `/* input loop */`, freshly allocated buffers. -/
def Reader.init (vals : List ℚ) : Reader := ⟨0, 0, 0, fun _ => none, fun _ => none, fun _ => none, vals⟩

/-- `if (free) pt->idx[k++] = l++; else l++;` -/
def Reader.slot (s : Reader) (free : Bool) : Reader :=
  if free then { s with idx := store s.idx s.k s.l, k := s.k + 1, l := s.l + 1 }
  else { s with l := s.l + 1 }

/-- The gradient values stored when the file carries none. -/
def Role.defaults : Role → ℚ × ℚ
  | .embed | .sEmbed | .adpW => (1e30, 1e30)
  | .meamG => (0, 0)
  | .pair | .rho | .sRho | .adpU | .meamF => (1e30, 0)

def Role.gradMsg : Role → String
  | .pair => "Premature end of potential file %s\n(no pair gradient pot %d)\n"
  | .rho => "Premature end of potential file %s\n(no rho grad, pot %d)\n"
  | .embed => "Premature end of potential file %s\n(no F grad, pot %d)\n"
  | .sRho => "Premature end of potential file %s\n(no s-band rho grad, pot %d)\n"
  | .sEmbed => "Premature end of potential file %s\n(no s-band F grad, pot %d)\n"
  | .adpU => "Premature end of potential file %s\n(no ADP-d grad, pot %d)\n"
  | .adpW => "Premature end of potential file %s\n(no ADP-q grad, pot %d)\n"
  | .meamF => "Premature end of potential file %s\n(no MEAM 2nd pair grad, pot %d)\n"
  | .meamG => "Premature end of potential file %s\n(no MEAM angle gradient, pot %d)\n"

def Role.valsMsg : Role → String
  | .pair => "Premature end of potential file %s\n(no pair values, pot %d line %d)\n"
  | .rho => "Premature end of potential file %s\n(no rho values pot %d line %d)\n"
  | .embed => "Premature end of potential file %s\n(no F values, pot %d line %d)\n"
  | .sRho => "Premature end of potential file %s\n(no s-band rho values, pot %d line %d)\n"
  | .sEmbed => "Premature end of potential file %s\n(no s-band F values, pot %d line %d)\n"
  | .adpU => "Premature end of potential file %s\n(no ADP-d values, pot %d line %d)\n"
  | .adpW => "Premature end of potential file %s\n(no ADP-q values, pot %d line %d)\n"
  | .meamF => "Premature end of potential file %s\n(no MEAM 2nd pair values, pot %d line %d)\n"
  | .meamG => "Premature end of potential file %s\n(no MEAM angle values, pot %d line %d)\n"

/-- The MEAM angle loop passes no function index for its `%d`. -/
def gradError (r : Role) (filename : String) (i : Nat) : Fatal :=
  match r with
  | .meamG => .of r.gradMsg [.str filename]
  | _ => .of r.gradMsg [.str filename, .int i]

/-- Its format has two conversions, `%s` and `%d`, for one argument. -/
example : (gradError .meamG "pot" 0).fmt.toList.count '%' = 2 ∧ (gradError .meamG "pot" 0).args.length = 1 := by
  decide

def valsError (r : Role) (filename : String) (i j : Nat) : Fatal :=
  .of r.valsMsg [.str filename, .int i, .int j]

/-- The F loop's check, `#if !defined(RESCALE)`, that the grid contains 1.0. -/
def gaugeError (gr : Grid) : Fatal :=
  ⟨["Your embedding function has insufficient sampling points\n",
    "For fixing the gauge degrees of freedom potfit needs to calculate F'(1.0)!\n"],
   "Please include F(1.0) in your potential definition (currently [%f,%f])\n",
   [.real gr.begin, .real gr.«end»]⟩

/-- The F loop's test, under `#if !defined(RESCALE)`:
`pt->begin[i] > 1.0 || pt->end[i] < 1.0`. -/
def gaugeFails (b : Build) (r : Role) (gr : Grid) : Bool :=
  r == .embed && !b.rescale && (decide (gr.begin > 1) || decide (gr.«end» < 1))

/-- Whether the two gradient slots of function `i` are free:
`(!invar_pot[i]) && (gradient[i] >> 1)` and `(!invar_pot[i]) && (gradient[i] % 2)`. -/
def gradFree (g : Globals) (i : Nat) : Bool × Bool :=
  (g.invarPot i == 0 && g.gradient i >>> 1 != 0, g.invarPot i == 0 && (g.gradient i).tmod 2 != 0)

/-- Whether sample `j` of function `i` is free, loop by loop: the last sample
of a pair-like function stays fixed, and in a default build so does the first
knot of the first MEAM `f` function (the `MEAMf` build tests `invar_pot` alone). -/
def sampleFree (b : Build) (g : Globals) (r : Role) (nvals : Int) (i j : Nat) : Bool :=
  match r with
  | .embed | .sEmbed | .meamG => g.invarPot i == 0
  | .meamF =>
    if b.meamf then g.invarPot i == 0
    else g.invarPot i == 0 && decide ((j : Int) < nvals - 1) &&
      (j != 0 || i != g.paircol + 2 * g.ntypes)
  | .pair | .rho | .sRho | .adpU | .adpW => g.invarPot i == 0 && decide ((j : Int) < nvals - 1)

section
variable (b : Build) (ps : PotentialState) (g : Globals)

/-- The gradient pair of function `i`: `fscanf(pfile, "%lf %lf\n", val, val + 1)`,
which stores the first value even when the second is missing, or the role's
defaults; then `val += 2` and the two gradient slots. -/
def readGradient (r : Role) (i : Nat) (s : Reader) : Except (Fatal × Reader) Reader := do
  let s ← if ps.haveGradient then
      match s.rest with
      | [] => throw (gradError r ps.filename i, s)
      | [x] => throw (gradError r ps.filename i, { s with table := store s.table s.val x, rest := [] })
      | x :: y :: rest => pure { s with table := store (store s.table s.val x) (s.val + 1) y, rest }
    else pure { s with table := store (store s.table s.val r.defaults.1) (s.val + 1) r.defaults.2 }
  pure (({ s with val := s.val + 2 }.slot (gradFree g i).1).slot (gradFree g i).2)

/-- Sample `j` of function `i`: `fscanf(pfile, "%lf\n", val)` and `val++`, then
`xcoord[l]` and the sample's slot. -/
def readValue (r : Role) (i : Nat) (gr : Grid) (j : Nat) (s : Reader) :
    Except (Fatal × Reader) Reader :=
  match s.rest with
  | [] => throw (valsError r ps.filename i j, s)
  | x :: rest =>
    let s := { s with table := store s.table s.val x, val := s.val + 1, rest }
    pure ({ s with xcoord := store s.xcoord s.l (gr.begin + j * gr.step) }.slot
      (sampleFree b g r gr.nvals i j))

/-- `for (int j = ...; j < nvals[i]; j++)`, from sample `j` with `n` samples to go. -/
def readValues (r : Role) (i : Nat) (gr : Grid) : Nat → Nat → Reader → Except (Fatal × Reader) Reader
  | _, 0, s => pure s
  | j, n + 1, s => readValue b ps g r i gr j s >>= readValues r i gr (j + 1) n

/-- One pass of a read loop's body: function `i` of role `r`. A function past
`num_pots`, where the source reads beyond its arrays, reads as the zero grid. -/
def readFunction (grids : List Grid) (s : Reader) (ri : Role × Nat) : Except (Fatal × Reader) Reader :=
  let (r, i) := ri
  let gr := grids.getD i default
  if gaugeFails b r gr then throw (gaugeError gr, s)
  else readGradient ps g r i s >>= readValues b ps g r i gr 0 gr.nvals.toNat

/-- The read loops, in the order the build compiles them. -/
def readTable (grids : List Grid) (vals : List ℚ) : Except (Fatal × Reader) Reader :=
  (schedule b.interaction g.paircol g.ntypes).foldlM (readFunction b ps g grids) (Reader.init vals)

end

/-- What `read_pot_table3` leaves in `g_pot.opt_pot` (`init_calc_table3` then
makes `g_pot.calc_pot` share all of it). -/
structure PotTable where
  grids : List Grid
  len : Int
  table : Nat → Option ℚ
  xcoord : Nat → Option ℚ
  idx : Nat → Option Nat
  idxlen : Nat

/-- `read_pot_table3`. An info block with more than `num_pots` lines is read on
as values, three per line. -/
def readPotTable3 (b : Build) (potentialFilename : String) (ps : PotentialState) (g : Globals)
    (info : List InfoLine) (vals : List ℚ) : Except Fatal PotTable :=
  match b.model with
  | .apot | .kim => throw (.of "Unsupported potential format in %s" [.str potentialFilename])
  | .tab => do
    let (grids, len) ← readInfo ps.filename ps.numPots info
    let stream := (info.drop ps.numPots).flatMap (fun ln => [ln.begin, ln.«end», (ln.nvals : ℚ)]) ++ vals
    match readTable b ps g grids stream with
    | .error (e, _) => throw e
    | .ok s => pure ⟨grids, len, s.table, s.xcoord, s.idx, s.k⟩

end Potfit.Table
