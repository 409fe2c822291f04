import CS640.P1.Commands

/-!
# The end of a session

The loop of `main` goes on as long as `reg` is not `E`. It starts with `E`, a blank line leaves it as it is,
and so does the end of the input, where `getline` gives an empty line again and again.

Main result: `endsRight_iff`, for which inputs the loop stops where it should.

The loop returns the lines that it has not read, so where it stops is part of its result. It is compared with
`afterEnd`, which is where it should stop. The proof follows the list of lines, in both runs at once: with the blank
lines and without them.
-/

namespace CS640.P1

open CS640.Lib Prog

/-- A line, and the bytes behind the block that a `load` in it reads to. -/
structure Line where
  inputStr : List UInt8
  after : List UInt8
  deriving DecidableEq

namespace Line

/-- A line without tokens. -/
def isBlankLine (l : Line) : Bool := (tokens l.inputStr).isEmpty

/-- A valid `end`. -/
def isEnd (l : Line) : Bool := (tokens l.inputStr).map lower == [bytes "end"]

end Line

section Loop

variable (disk : List UInt8 → Option (List UInt8))

/-- The loop of `main`, at most `fuel` rounds of it. What is returned is the lines that are not read. -/
def loop : Nat → Reg → List Line → Call (List Line)
  | 0, _, _ => exit .diverge
  | fuel + 1, reg, lines => do
    let line := lines.headD ⟨[], []⟩
    let reg ← execute disk line.after reg line.inputStr
    if reg = .E then pure lines.tail else loop fuel reg lines.tail

end Loop

/-- What comes after the first valid `end`. -/
def afterEnd : List Line → List Line
  | [] => []
  | l :: lines => if l.isEnd then lines else afterEnd lines

/-- The lines that are not blank. -/
def withoutBlank (lines : List Line) : List Line := lines.filter fun l => !l.isBlankLine

/-- The loop ends after the first valid `end`, or when all lines are read. Without the blank lines it does
the same. -/
def EndsRight (disk : List UInt8 → Option (List UInt8)) (s : Session) (lines : List Line) : Prop :=
  ∃ t, (∃ fuel, loop disk fuel .E lines s = (.ok (afterEnd lines), t)) ∧
    ∃ fuel, loop disk fuel .E (withoutBlank lines) s = (.ok (afterEnd (withoutBlank lines)), t)

/-- There is a valid `end`, and the lines before it are defined. -/
def ReachesEnd (disk : List UInt8 → Option (List UInt8)) : List Line → Prop
  | [] => False
  | l :: lines => l.isEnd = true ∨ Defined disk (tokens l.inputStr) ∧ ReachesEnd disk lines

/-! ## A round

What a round does with `reg`: a valid `end` sets it to `E`, a blank line leaves it, and any other line sets it to
something else. Lines that are not blank do not look at it, so it matters only for a blank line at the start.
-/

variable {disk : List UInt8 → Option (List UInt8)} {reg reg' : Reg} {s t : Session} {l : Line}
  {lines : List Line} {fuel : Nat}

theorem isEnd_iff : l.isEnd = true ↔ ∃ token, tokens l.inputStr = [token] ∧ lower token = bytes "end" := by
  simp [Line.isEnd, List.map_eq_singleton_iff]

theorem tokens_of_blank (h : l.isBlankLine = true) : tokens l.inputStr = [] := by
  simpa [Line.isBlankLine] using h

theorem isEnd_of_blank (h : l.isBlankLine = true) : l.isEnd = false := by
  rw [Line.isEnd, tokens_of_blank h]
  rfl

/-- A round whose line returns, and one whose line does not. -/
theorem loop_ok (h : execute disk l.after reg l.inputStr s = (.ok reg', t)) :
    loop disk (fuel + 1) reg (l :: lines) s =
      (if reg' = .E then pure lines else loop disk fuel reg' lines : Call (List Line)) t := by
  rw [loop]
  exact bind_of_ok h

theorem loop_error {e : Exit Empty} (h : execute disk l.after reg l.inputStr s = (.error e, t)) :
    loop disk (fuel + 1) reg (l :: lines) s = (.error e, t) := by
  rw [loop]
  exact bind_of_error h

theorem loop_blank (h : l.isBlankLine = true) :
    loop disk (fuel + 1) reg (l :: lines) s =
      (if reg = .E then pure lines else loop disk fuel reg lines : Call (List Line)) s := by
  apply loop_ok
  rw [execute_eq, tokens_of_blank h]
  rfl

theorem loop_isEnd (h : l.isEnd = true) :
    loop disk (fuel + 1) reg (l :: lines) s = (.ok lines, s) := by
  obtain ⟨token, htokens, htoken⟩ := isEnd_iff.mp h
  have hround : execute disk l.after reg l.inputStr s = (.ok .E, s) := by
    rw [execute_eq, htokens, perform, compareCmd_eq.2.1.mpr htoken]
    rfl
  exact loop_ok hround

/-- A line that is not blank does not look at `reg`. -/
theorem execute_reg (h : l.isBlankLine = false) (reg reg' : Reg) :
    execute disk l.after reg l.inputStr = execute disk l.after reg' l.inputStr := by
  rw [execute_eq, execute_eq]
  -- by the number of tokens; only a line without any looks at `reg`
  match hts : tokens l.inputStr with
  | [] => simp [Line.isBlankLine, hts] at h
  | [_] => rfl
  | [_, _] => rfl
  | _ :: _ :: _ :: _ => rfl

/-- Any other line that is defined leaves `reg` different from `E`. -/
theorem execute_goes_on (hblank : l.isBlankLine = false) (hend : l.isEnd = false)
    (hdefined : Defined disk (tokens l.inputStr)) (reg : Reg) (s : Session) :
    ∃ reg' t, execute disk l.after reg l.inputStr s = (.ok reg', t) ∧ reg' ≠ .E := by
  rw [execute_eq]
  -- a line of the grammar, or one that is rejected
  by_cases hgrammar : Grammar disk (tokens l.inputStr)
  · obtain ⟨reg', t, _, hrun, -, -, hreg⟩ :=
      perform_accepted hdefined hgrammar s
    refine ⟨reg', t, hrun, fun h => ?_⟩
    rw [isEnd_iff.mpr (hreg.mp h)] at hend
    cases hend
  · have hne : tokens l.inputStr ≠ [] := by
      intro hnil
      simp [Line.isBlankLine, hnil] at hblank
    rcases perform_rejected hdefined hne hgrammar with hrun | ⟨-, hrun⟩
    · rw [hrun]
      exact ⟨.P, _, rfl, by decide⟩
    · rw [hrun]
      exact ⟨.L, _, rfl, by decide⟩

/-- At the end of the input nothing changes any more. -/
theorem loop_nil (h : reg ≠ .E) (fuel : Nat) : loop disk fuel reg [] s = (.error .diverge, s) := by
  induction fuel with
  | zero => rfl
  | succ fuel ih =>
      have hround : execute disk [] reg [] s = (.ok reg, s) := rfl
      rw [loop]
      refine (bind_of_ok hround).trans ?_
      rw [if_neg h]
      exact ih

/-! ## The whole input

Two inductions on the lines, one for each direction. With a reachable `end`, fuel for a round is added per line;
without one, no fuel suffices.
-/

/-- With a reachable `end` the loop stops there, and does the same without the blank lines. -/
theorem loop_of_reachesEnd (h : ReachesEnd disk lines) :
    ∀ (reg reg' : Reg) (s : Session), reg ≠ .E → reg' ≠ .E →
      ∃ t, (∃ fuel, loop disk fuel reg lines s = (.ok (afterEnd lines), t)) ∧
        ∃ fuel, loop disk fuel reg' (withoutBlank lines) s = (.ok (afterEnd (withoutBlank lines)), t) := by
  -- over the lines; both runs need a line that is not blank to go on together
  induction lines with
  | nil => exact h.elim
  | cons l lines ih =>
      intro reg reg' s hreg hreg'
      cases hblank : l.isBlankLine with
      | true =>
          have hend := isEnd_of_blank hblank
          have hrest : ReachesEnd disk lines := by
            rcases h with h | h
            · rw [h] at hend
              cases hend
            · exact h.2
          obtain ⟨t, ⟨fuel, hrun⟩, hwithout⟩ := ih hrest reg reg' s hreg hreg'
          have hfilter : withoutBlank (l :: lines) = withoutBlank lines := by
            simp [withoutBlank, hblank]
          refine ⟨t, ⟨fuel + 1, ?_⟩, by rwa [hfilter]⟩
          rw [loop_blank hblank, if_neg hreg, hrun, afterEnd, hend]
          rfl
      | false =>
          have hfilter : withoutBlank (l :: lines) = l :: withoutBlank lines := by
            simp [withoutBlank, hblank]
          rw [hfilter]
          cases hend : l.isEnd with
          | true =>
              rw [afterEnd, if_pos hend, afterEnd, if_pos hend]
              exact ⟨s, ⟨1, loop_isEnd hend⟩, 1, loop_isEnd hend⟩
          | false =>
              -- both runs go through the same round
              obtain ⟨hdefined, hrest⟩ : Defined disk (tokens l.inputStr) ∧ ReachesEnd disk lines := by
                rcases h with h | h
                · rw [h] at hend
                  cases hend
                · exact h
              obtain ⟨reg'', u, hround, hne⟩ := execute_goes_on hblank hend hdefined reg s
              obtain ⟨t, ⟨fuel, hrun⟩, fuel', hrun'⟩ := ih hrest reg'' reg'' u hne hne
              refine ⟨t, ⟨fuel + 1, ?_⟩, fuel' + 1, ?_⟩
              · rw [loop_ok hround, if_neg hne, afterEnd, hend]
                exact hrun
              · rw [execute_reg hblank reg reg'] at hround
                rw [loop_ok hround, if_neg hne, afterEnd, hend]
                exact hrun'

/-- Without one it does not return. -/
theorem reachesEnd_of_loop (hreg : reg ≠ .E) {rest : List Line}
    (h : loop disk fuel reg lines s = (.ok rest, t)) : ReachesEnd disk lines := by
  -- over the lines that are read
  induction lines generalizing fuel reg s with
  | nil =>
      rw [loop_nil hreg] at h
      cases h
  | cons l lines ih =>
      cases fuel with
      | zero => cases h
      | succ fuel =>
          -- the line is a valid `end`, a blank one, or another one that must be defined
          cases hend : l.isEnd with
          | true => exact Or.inl hend
          | false =>
              right
              cases hblank : l.isBlankLine with
              | true =>
                  rw [loop_blank hblank, if_neg hreg] at h
                  rw [tokens_of_blank hblank]
                  exact ⟨trivial, ih hreg h⟩
              | false =>
                  have hdefined : Defined disk (tokens l.inputStr) := by
                    by_contra hnot
                    obtain ⟨e, herror⟩ := perform_undefined hnot
                    have hround := herror l.after reg s
                    rw [← execute_eq] at hround
                    rw [loop_error hround] at h
                    cases h
                  obtain ⟨reg', u, hround, hne⟩ := execute_goes_on hblank hend hdefined reg s
                  rw [loop_ok hround, if_neg hne] at h
                  exact ⟨hdefined, ih hne h⟩

theorem afterEnd_length (l : Line) (lines : List Line) :
    (afterEnd (l :: lines)).length ≤ lines.length := by
  induction lines generalizing l with
  | nil =>
      rw [afterEnd]
      split <;> simp [afterEnd]
  | cons l' lines ih =>
      rw [afterEnd]
      split
      · exact Nat.le_refl _
      · exact Nat.le_succ_of_le (ih l')

/-- **The end of a session.** The loop stops after the first valid `end`, or when all lines are read, and
blank lines change nothing, if and only if there is no line at all, or a single blank one, or the first line
is not blank and there is a valid `end` before which every line is defined. -/
theorem endsRight_iff (disk : List UInt8 → Option (List UInt8)) (s : Session) (lines : List Line) :
    EndsRight disk s lines ↔
      match lines with
      | [] => True
      | l :: lines => if l.isBlankLine then lines = [] else ReachesEnd disk (l :: lines) := by
  -- no line, a blank one first, or another one first
  cases lines with
  | nil =>
      have hrun : loop disk 1 .E [] s = (.ok [], s) := rfl
      simp only [iff_true]
      exact ⟨s, ⟨1, hrun⟩, 1, hrun⟩
  | cons l lines =>
      dsimp only
      cases hblank : l.isBlankLine with
      | true =>
          have hend := isEnd_of_blank hblank
          rw [if_pos rfl]
          constructor
          · rintro ⟨t, ⟨fuel, hrun⟩, -⟩
            cases fuel with
            | zero => cases hrun
            | succ fuel =>
                -- the loop stops at once, with all the other lines left
                rw [loop_blank hblank, if_pos rfl, afterEnd, hend] at hrun
                cases lines with
                | nil => rfl
                | cons l' lines =>
                    have hleft : l' :: lines = afterEnd (l' :: lines) :=
                      Except.ok.inj (congrArg Prod.fst hrun)
                    have hlen := afterEnd_length l' lines
                    rw [← hleft, List.length_cons] at hlen
                    omega
          · rintro rfl
            have hfilter : withoutBlank [l] = [] := by simp [withoutBlank, hblank]
            refine ⟨s, ⟨1, ?_⟩, 1, ?_⟩
            · rw [loop_blank hblank, if_pos rfl, afterEnd, hend]
              rfl
            · rw [hfilter]
              rfl
      | false =>
          -- the first line does not look at the `reg` of the start
          rw [if_neg (by simp)]
          have hstart : ∀ fuel, loop disk fuel .E (l :: lines) s = loop disk fuel .N (l :: lines) s := by
            rintro (_ | fuel)
            · rfl
            · rw [loop, loop, List.headD_cons, execute_reg hblank .E .N]
          have hstart' : ∀ fuel, loop disk fuel .E (withoutBlank (l :: lines)) s =
              loop disk fuel .N (withoutBlank (l :: lines)) s := by
            rintro (_ | fuel)
            · rfl
            · have hfilter : withoutBlank (l :: lines) = l :: withoutBlank lines := by
                simp [withoutBlank, hblank]
              rw [hfilter, loop, loop, List.headD_cons, execute_reg hblank .E .N]
          rw [EndsRight]
          simp only [hstart, hstart']
          constructor
          · rintro ⟨t, ⟨fuel, hrun⟩, -⟩
            exact reachesEnd_of_loop (by decide) hrun
          · intro h
            exact loop_of_reachesEnd h .N .N s (by decide) (by decide)

/-- A session with blank lines in it. -/
theorem endsRight_sample :
    EndsRight (fun _ => none) ⟨∅, []⟩
      [⟨bytes "new", []⟩, ⟨bytes "  ", []⟩, ⟨bytes "locate pie 1", []⟩, ⟨[], []⟩, ⟨bytes "END ", []⟩] :=
  (endsRight_iff _ _ _).mpr <| by
    have hblank : Line.isBlankLine ⟨bytes "new", []⟩ = false := by decide
    dsimp only
    rw [if_neg (by simp [hblank])]
    have hnew : tokens (bytes "new") = [bytes "new"] := by decide
    have hspaces : tokens (bytes "  ") = [] := by decide
    have hlocate : tokens (bytes "locate pie 1") = [bytes "locate", bytes "pie", bytes "1"] := by decide
    have hempty : tokens [] = [] := by decide
    refine Or.inr ⟨?_, Or.inr ⟨?_, Or.inr ⟨?_, Or.inr ⟨?_, Or.inl (by decide)⟩⟩⟩⟩
    · rw [hnew]
      show lower (bytes "new") ≠ bytes "locate"
      decide
    · rw [hspaces]
      trivial
    · rw [hlocate]
      exact fun _ => ⟨1, by decide⟩
    · rw [hempty]
      trivial

/-- A blank line first ends the session. At the end of the input the loop goes on for ever. -/
theorem not_endsRight :
    ¬ EndsRight (fun _ => none) ⟨∅, []⟩ [⟨[], []⟩, ⟨bytes "new", []⟩, ⟨bytes "end", []⟩] ∧
      ¬ EndsRight (fun _ => none) ⟨∅, []⟩ [⟨bytes "new", []⟩] := by
  constructor
  · rintro ⟨t, ⟨fuel, hrun⟩, -⟩
    cases fuel with
    | zero => cases hrun
    | succ fuel =>
        rw [loop_blank (by decide), if_pos rfl] at hrun
        have hleft := congrArg List.length (Except.ok.inj (congrArg Prod.fst hrun))
        exact absurd hleft (by decide)
  · rintro ⟨t, ⟨fuel, hrun⟩, -⟩
    cases fuel with
    | zero => cases hrun
    | succ fuel =>
        have hround : execute (fun _ => none) [] .E (bytes "new") ⟨∅, []⟩ = (.ok .N, ⟨∅, []⟩) := rfl
        rw [loop_ok hround, if_neg (by decide), loop_nil (by decide)] at hrun
        cases hrun

end CS640.P1
