import CS640.P1.SessionEnd

/-!
# Locating changes no answer

Two runs are compared: one of some commands, and one of the same commands with more `locate`s among them. A
`locate` may enter its word, without positions. The dictionaries of the two runs have the same answers
throughout, and what a command prints depends on the answers only.

Main result: `transcript_extra`, that the common commands print the same in both runs.

The relation between the two runs is `Same` on their dictionaries. It holds at the start; `perform_same` keeps it
when both runs make the same command, and `execute_extra` when only one of them makes a `locate`.
-/

namespace CS640.P1

open CS640.Lib Prog Dictionary

/-- A line of the longer of two inputs, and whether it is one of its own. -/
structure Command where
  line : Line
  extra : Bool
  deriving DecidableEq

/-- What each command prints, up to the end of the session or a line that does not return. -/
def transcript (disk : List UInt8 → Option (List UInt8)) :
    Reg → Session → List Command → List (Command × List Output)
  | _, _, [] => []
  | reg, s, c :: cs =>
    match execute disk c.line.after reg c.line.inputStr s with
    | (.ok reg', t) =>
      (c, t.output.drop s.output.length) :: (if reg' = .E then [] else transcript disk reg' t cs)
    | (.error _, t) => [(c, t.output.drop s.output.length)]

/-- The commands of the shorter input. -/
def common (cs : List Command) : List Command := cs.filter fun c => !c.extra

/-- What the commands of the shorter input print in a run of the longer one. -/
def ofCommon (outputs : List (Command × List Output)) : List (Command × List Output) :=
  outputs.filter fun o => !o.1.extra

/-- A `locate` with a valid word and an index, whatever they are. -/
def IsLocate (ts : List (List UInt8)) : Prop :=
  ∃ token targetWord index, ts = [token, targetWord, index] ∧ lower token = bytes "locate" ∧
    ∀ c ∈ targetWord, isDelim c = false

variable {disk : List UInt8 → Option (List UInt8)} {after token targetWord index : List UInt8}
  {reg reg' : Reg} {s s' : Session} {ts : List (List UInt8)} {c : Command} {cs : List Command} {n : Int}

/-! ## One command, from two dictionaries with the same answers

A command is followed in both runs at once. Whether it returns, and what it prints, is decided by its tokens and by
the answers of the dictionary.
-/

theorem perform_locate (htoken : lower token = bytes "locate") (hword : ∀ c ∈ targetWord, isDelim c = false)
    (hatoi : atoi index = some n) (hint : IsInt (n - 1)) :
    perform disk after reg [token, targetWord, index] = find (lower targetWord) n := by
  rw [perform, compareCmd_eq.2.2.1.mpr htoken]
  dsimp only
  rw [located, hatoi]
  dsimp only
  rw [if_neg (not_not_intro hint), if_neg (by simp [validWord_lower_iff.mpr hword])]

/-- A command ends alike, prints the same and leaves the same answers. -/
theorem perform_same (h : s.wordDictionary.Same s'.wordDictionary) (hne : ts ≠ []) (reg reg' : Reg) :
    ∃ r t t' printed, perform disk after reg ts s = (r, t) ∧ perform disk after reg' ts s' = (r, t') ∧
      t.output = s.output ++ printed ∧ t'.output = s'.output ++ printed ∧
      t.wordDictionary.Same t'.wordDictionary := by
  -- a command that only prints a message, or nothing
  have hinvalid : ∃ r t t' printed, invalid s = (r, t) ∧ invalid s' = (r, t') ∧
      t.output = s.output ++ printed ∧ t'.output = s'.output ++ printed ∧
      t.wordDictionary.Same t'.wordDictionary :=
    ⟨_, _, _, _, invalid_apply s, invalid_apply s', rfl, rfl, h⟩
  have hnothing : ∀ r : Except (Exit Empty) Reg, ∃ r' t t' printed, (r, s) = (r', t) ∧ (r, s') = (r', t') ∧
      t.output = s.output ++ printed ∧ t'.output = s'.output ++ printed ∧
      t.wordDictionary.Same t'.wordDictionary :=
    fun r => ⟨r, s, s', [], rfl, rfl, (List.append_nil _).symm, (List.append_nil _).symm, h⟩
  by_cases hdefined : Defined disk ts
  · by_cases hgrammar : Grammar disk ts
    · -- a case for each command of the grammar
      cases hgrammar with
      | @newCommand token htoken =>
          rw [perform, perform, compareCmd_eq.1.mpr htoken]
          exact ⟨.ok .N, s.setDictionary ∅, s'.setDictionary ∅, [], rfl, rfl, (List.append_nil _).symm,
            (List.append_nil _).symm, .refl _⟩
      | @endCommand token htoken =>
          rw [perform, perform, compareCmd_eq.2.1.mpr htoken]
          exact hnothing (.ok .E)
      | @loadFile token filename file htoken hfile =>
          -- the words of the file are entered into both
          rw [perform, perform, compareCmd_eq.2.2.2.mpr htoken]
          dsimp only
          rw [load_ok hfile (hdefined htoken file hfile), load_ok hfile (hdefined htoken file hfile)]
          refine ⟨.ok .L, _, _, [], rfl, rfl, ?_, ?_, ?_⟩
          · rw [Session.output_setDictionary, List.append_nil]
          · rw [Session.output_setDictionary, List.append_nil]
          · rw [Session.wordDictionary_setDictionary, Session.wordDictionary_setDictionary]
            exact generate_same h _ _ _
      | @locateWord token targetWord index htoken hword =>
          obtain ⟨n, hatoi, hint⟩ := hdefined htoken
          rw [perform_locate htoken hword hatoi hint, perform_locate htoken hword hatoi hint]
          obtain ⟨t, hrun, hout, hsame⟩ := find_apply (lower targetWord) n s
          obtain ⟨t', hrun', hout', hsame'⟩ := find_apply (lower targetWord) n s'
          rw [← h (lower targetWord)] at hout'
          exact ⟨.ok .F, t, t', _, hrun, hrun', hout, hout', hsame.trans (h.trans hsame'.symm)⟩
    · rcases perform_rejected hdefined hne hgrammar with hrun | ⟨-, hrun⟩
      · rw [hrun, hrun]
        exact hinvalid
      · rw [hrun, hrun]
        exact hnothing (.ok .L)
  · -- the line does not return in either run
    obtain ⟨e, herror⟩ := perform_undefined hdefined
    rw [herror, herror]
    exact hnothing (.error e)

theorem execute_same (disk : List UInt8 → Option (List UInt8)) (after : List UInt8) {inputStr : List UInt8}
    (h : s.wordDictionary.Same s'.wordDictionary) (hne : tokens inputStr ≠ []) (reg reg' : Reg) :
    ∃ r t t' printed, execute disk after reg inputStr s = (r, t) ∧
      execute disk after reg' inputStr s' = (r, t') ∧
      t.output = s.output ++ printed ∧ t'.output = s'.output ++ printed ∧
      t.wordDictionary.Same t'.wordDictionary := by
  rw [execute_eq, execute_eq]
  exact perform_same h hne reg reg'

/-- A further `locate` returns, if its index is defined, and changes no answer. -/
theorem execute_extra (h : IsLocate (tokens c.line.inputStr)) (hdefined : Defined disk (tokens c.line.inputStr))
    (reg : Reg) (s : Session) :
    ∃ t, execute disk c.line.after reg c.line.inputStr s = (.ok .F, t) ∧
      t.wordDictionary.Same s.wordDictionary := by
  obtain ⟨token, targetWord, index, htokens, htoken, hword⟩ := h
  rw [htokens] at hdefined
  obtain ⟨n, hatoi, hint⟩ := hdefined htoken
  rw [execute_eq, htokens, perform_locate htoken hword hatoi hint]
  obtain ⟨t, hrun, -, hsame⟩ := find_apply (lower targetWord) n s
  exact ⟨t, hrun, hsame⟩

/-- What `locate` does to the entry of a word that is absent: with an index from `1` on, the word is entered
without positions, but into an empty dictionary it is not. -/
theorem find_absent {word : List UInt8} (habsent : s.wordDictionary.lookup word = none) :
    ∃ t, find word n s = (.ok .F, t) ∧
      t.wordDictionary.lookup word = if s.wordDictionary.entries = [] ∨ n < 1 then none else some [] := by
  rw [find, bind_of_ok (get_apply s)]
  -- nothing is entered for an index below one, or into an empty dictionary
  by_cases hskip : s.wordDictionary.entries = [] ∨ n < 1
  · rw [if_pos hskip, if_pos]
    · exact ⟨s.print .noMatchingEntry, rfl, habsent⟩
    · rcases hskip with hskip | hskip
      · simp [hskip]
      · have hneg : n - 1 < 0 := by omega
        simp [hneg]
  · rw [if_neg hskip, if_neg]
    · rw [habsent]
      exact ⟨_, rfl, AList.lookup_insert _⟩
    · have hnonneg : ¬ n - 1 < 0 := by omega
      simpa [hnonneg] using fun h => hskip (Or.inl h)

/-! ## The transcript of a run

The transcript keeps the prints of the commands apart, and the output of the loop is their concatenation.
-/

/-- What the loop prints is what its commands print. -/
theorem loop_output (hblank : ∀ c ∈ cs, tokens c.line.inputStr ≠ []) :
    ∀ {fuel : Nat}, cs.length ≤ fuel → ∀ (reg : Reg) (s : Session),
      (loop disk fuel reg (cs.map Command.line) s).2.output =
        s.output ++ (transcript disk reg s cs).flatMap Prod.snd := by
  -- over the commands
  induction cs with
  | nil =>
      intro fuel _ reg s
      have hsame : (loop disk fuel reg [] s).2 = s := by
        by_cases hreg : reg = .E
        · subst hreg
          cases fuel <;> rfl
        · rw [loop_nil hreg]
      rw [List.map_nil, hsame]
      exact (List.append_nil _).symm
  | cons c cs ih =>
      intro fuel hfuel reg s
      obtain ⟨fuel, rfl⟩ : ∃ m, fuel = m + 1 := Nat.exists_eq_add_one_of_ne_zero (by
        rintro rfl
        simp at hfuel)
      obtain ⟨r, t, -, printed, hrun, -, hout, -, -⟩ :=
        execute_same disk c.line.after (.refl s.wordDictionary) (hblank c List.mem_cons_self) reg reg
      rw [List.map_cons, transcript, hrun]
      cases r with
      | error e =>
          rw [loop_error hrun]
          simp [hout]
      | ok reg' =>
          rw [loop_ok hrun]
          by_cases hend : reg' = .E
          · simp [hend, hout]
          · have hrest := ih (fun d hd => hblank d (List.mem_cons_of_mem c hd))
              (Nat.le_of_succ_le_succ hfuel) reg' t
            simp [hend, hout, hrest]

/-! ## Two runs

The longer run is followed command by command. At a further `locate` the shorter run stands still; at a common
command both go on. If a further `locate` does not return, the longer run ends there, and its transcript is a
prefix.
-/

/-- The runs of the two inputs, from dictionaries with the same answers. -/
theorem transcript_same (hblank : ∀ c ∈ cs, tokens c.line.inputStr ≠ [])
    (hextra : ∀ c ∈ cs, c.extra = true → IsLocate (tokens c.line.inputStr))
    (h : s.wordDictionary.Same s'.wordDictionary) (reg reg' : Reg) :
    ofCommon (transcript disk reg s cs) <+: transcript disk reg' s' (common cs) ∧
      ((∀ c ∈ cs, c.extra = true → Defined disk (tokens c.line.inputStr)) →
        ofCommon (transcript disk reg s cs) = transcript disk reg' s' (common cs)) := by
  -- over the commands of the longer run
  induction cs generalizing reg reg' s s' with
  | nil => exact ⟨List.prefix_refl _, fun _ => rfl⟩
  | cons c cs ih =>
      have hblank' : ∀ d ∈ cs, tokens d.line.inputStr ≠ [] := fun d hd => hblank d (List.mem_cons_of_mem c hd)
      have hextra' : ∀ d ∈ cs, d.extra = true → IsLocate (tokens d.line.inputStr) :=
        fun d hd => hextra d (List.mem_cons_of_mem c hd)
      cases hc : c.extra with
      | true =>
          have hcommon : common (c :: cs) = common cs := by simp [common, hc]
          rw [hcommon]
          by_cases hdefined : Defined disk (tokens c.line.inputStr)
          · -- the dictionary gets an empty entry at most
            obtain ⟨t, hrun, hsame⟩ := execute_extra (hextra c List.mem_cons_self hc) hdefined reg s
            obtain ⟨hinit, heq⟩ := ih hblank' hextra' (hsame.trans h) .F reg'
            have hout : ofCommon (transcript disk reg s (c :: cs)) = ofCommon (transcript disk .F t cs) := by
              simp [transcript, hrun, ofCommon, hc]
            rw [hout]
            exact ⟨hinit, fun hall => heq fun d hd => hall d (List.mem_cons_of_mem c hd)⟩
          · -- the longer run ends here, and the other one goes on
            obtain ⟨e, herror⟩ := perform_undefined hdefined
            have hround := herror c.line.after reg s
            rw [← execute_eq] at hround
            refine ⟨?_, fun hall => absurd (hall c List.mem_cons_self hc) hdefined⟩
            simp [transcript, hround, ofCommon, hc]
      | false =>
          have hcommon : common (c :: cs) = c :: common cs := by simp [common, hc]
          obtain ⟨r, t, t', printed, hrun, hrun', hout, hout', hsame⟩ :=
            execute_same disk c.line.after h (hblank c List.mem_cons_self) reg reg'
          rw [hcommon, transcript, transcript, hrun, hrun']
          cases r with
          | error e =>
              dsimp only
              rw [hout, hout', List.drop_left, List.drop_left]
              have hfilter : ofCommon [(c, printed)] = [(c, printed)] := by simp [ofCommon, hc]
              rw [hfilter]
              exact ⟨List.prefix_refl _, fun _ => rfl⟩
          | ok reg'' =>
              dsimp only
              rw [hout, hout', List.drop_left, List.drop_left]
              have hfilter : ∀ outputs, ofCommon ((c, printed) :: outputs) = (c, printed) :: ofCommon outputs := by
                simp [ofCommon, hc]
              rw [hfilter]
              -- the session ends, or both runs go on
              by_cases hend : reg'' = .E
              · rw [if_pos hend, if_pos hend]
                exact ⟨List.prefix_refl _, fun _ => rfl⟩
              · rw [if_neg hend, if_neg hend]
                obtain ⟨hinit, heq⟩ := ih hblank' hextra' hsame reg'' reg''
                refine ⟨(List.cons_prefix_cons).mpr ⟨rfl, hinit⟩, fun hall => ?_⟩
                rw [heq fun d hd => hall d (List.mem_cons_of_mem c hd)]

/-- **Locating changes no answer.** The commands that two inputs have in common print the same in both runs,
up to a further `locate` whose index is undefined, and all of them do if there is none. A further `locate`
enters an absent word without positions, if the index is at least `1` and the dictionary is not empty. -/
theorem transcript_extra (disk : List UInt8 → Option (List UInt8)) (reg : Reg) (s : Session)
    (cs : List Command) (hblank : ∀ c ∈ cs, tokens c.line.inputStr ≠ [])
    (hextra : ∀ c ∈ cs, c.extra = true → IsLocate (tokens c.line.inputStr)) :
    (ofCommon (transcript disk reg s cs) <+: transcript disk reg s (common cs) ∧
      ((∀ c ∈ cs, c.extra = true → Defined disk (tokens c.line.inputStr)) →
        ofCommon (transcript disk reg s cs) = transcript disk reg s (common cs))) ∧
      ∀ (after inputStr token targetWord index : List UInt8) (n : Int) (reg : Reg) (s : Session),
        tokens inputStr = [token, targetWord, index] → lower token = bytes "locate" →
          (∀ c ∈ targetWord, isDelim c = false) → atoi index = some n → IsInt (n - 1) →
            s.wordDictionary.lookup (lower targetWord) = none →
              ∃ t, execute disk after reg inputStr s = (.ok .F, t) ∧
                t.wordDictionary.lookup (lower targetWord) =
                  if s.wordDictionary.entries = [] ∨ n < 1 then none else some [] := by
  refine ⟨transcript_same hblank hextra (.refl _) reg reg, ?_⟩
  intro after inputStr token targetWord index n reg s htokens htoken hword hatoi hint habsent
  rw [execute_eq, htokens, perform_locate htoken hword hatoi hint]
  exact find_absent habsent

/-- A disk with one file. -/
def songDisk (filename : List UInt8) : Option (List UInt8) :=
  if filename = bytes "song" then some (bytes "pie a\n") else none

/-- A session with a `locate` more. -/
def songCommands (inputStr : List UInt8) : List Command :=
  [⟨⟨bytes "load song", [0]⟩, false⟩, ⟨⟨inputStr, []⟩, true⟩, ⟨⟨bytes "locate PIE 1", []⟩, false⟩]

theorem transcript_song :
    ofCommon (transcript songDisk .E ⟨∅, []⟩ (songCommands (bytes "locate cake 1"))) =
      transcript songDisk .E ⟨∅, []⟩ (common (songCommands (bytes "locate cake 1"))) := by
  have htokens : tokens (bytes "locate cake 1") = [bytes "locate", bytes "cake", bytes "1"] := by decide
  refine (transcript_extra songDisk .E ⟨∅, []⟩ (songCommands (bytes "locate cake 1")) (by decide) ?_).1.2 ?_
  · intro c hc hextra
    simp only [songCommands, List.mem_cons, List.not_mem_nil, or_false] at hc
    rcases hc with rfl | rfl | rfl
    · cases hextra
    · exact ⟨_, _, _, htokens, by decide, by decide⟩
    · cases hextra
  · intro c hc hextra
    simp only [songCommands, List.mem_cons, List.not_mem_nil, or_false] at hc
    rcases hc with rfl | rfl | rfl
    · cases hextra
    · rw [htokens]
      exact fun _ => ⟨1, by decide⟩
    · cases hextra

/-- An absent word is not entered into the empty dictionary, and an index that is no `int` is undefined: what
comes after it is not reached. -/
theorem locate_absent :
    (∃ t, execute songDisk [] .N (bytes "locate cake 1") ⟨∅, []⟩ = (.ok .F, t) ∧
        t.wordDictionary.entries = []) ∧
      ofCommon (transcript songDisk .E ⟨∅, []⟩ (songCommands (bytes "locate cake 4294967296"))) ≠
        transcript songDisk .E ⟨∅, []⟩ (common (songCommands (bytes "locate cake 4294967296"))) := by
  constructor
  · exact ⟨_, rfl, rfl⟩
  · decide +kernel

end CS640.P1
