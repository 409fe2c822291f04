import CS640.P1.WordLocator

/-!
# The command grammar

What a line does depends on its tokens alone: `execute_eq` says that a round of the loop, which finds them
one by one with `strtok`, is `perform` on all of them. A line is right by `Grammar`; every other line should
print the message and change no answer.

The dictionary's answers are the positions of each word. A word that is not there and a word without
positions get the same answer, and `locate` makes one of the other.

Main result: `judged_iff`, which lines are treated as the grammar says.

`execute` is compared with `perform` once (`execute_eq`); from there on no proof mentions `strtok`. Then a list of
tokens is of one of three kinds, and there is a lemma for each: it runs into undefined behaviour or aborts
(`perform_undefined`), it is a line of the grammar (`perform_accepted`), or it is none (`perform_rejected`).
-/

namespace CS640.P1

open CS640.Lib Prog

/-- The tokens of a line. -/
def tokens (inputStr : List UInt8) : List (List UInt8) := words isBlank (cString inputStr)

/-! ## The answers of a dictionary

`locate` enters the word that it looks for, without positions if the word is not there. What is observed of a
dictionary is thus what it answers, and `Same` leaves out which words have an entry.
-/

namespace Dictionary

/-- The positions of a word. -/
def answers (d : Dictionary) (word : List UInt8) : List Int := (d.lookup word).getD []

/-- Two dictionaries with the same answers: they differ in words without positions at most. -/
def Same (d e : Dictionary) : Prop := ∀ word, d.answers word = e.answers word

variable {d e f : Dictionary}

@[simp] theorem Same.refl (d : Dictionary) : d.Same d := fun _ => rfl

theorem Same.symm (h : d.Same e) : e.Same d := fun word => (h word).symm

theorem Same.trans (h : d.Same e) (h' : e.Same f) : d.Same f := fun word => (h word).trans (h' word)

/-- To enter the answer that a word has already changes no answer. -/
theorem insert_same (d : Dictionary) (word : List UInt8) :
    Dictionary.Same (d.insert word (d.answers word)) d := by
  intro u
  -- the word itself has the answer that it had, and the other words theirs
  by_cases hu : u = word
  · subst hu
    rw [answers, AList.lookup_insert]
    rfl
  · rw [answers, AList.lookup_insert_ne hu]
    rfl

/-- The words of a text are entered alike. -/
theorem generate_same (h : d.Same e) (n j : Nat) (text : List UInt8) :
    Dictionary.Same (generate n j text d) (generate n j text e) := by
  intro u
  have hu := h u
  simp only [answers] at hu ⊢
  rw [lookup_generate, lookup_generate, hu]

/-- A dictionary without words has no positions. -/
theorem answers_of_isEmpty (h : d.entries.isEmpty = true) (word : List UInt8) : d.answers word = [] := by
  have hentries : d.entries = [] := by simpa using h
  rw [answers, AList.lookup, hentries]
  rfl

end Dictionary

open Dictionary

/-! ## A line by its tokens

The model of the loop finds the tokens as the source does, one at a time, and treats them where it has found them.
Here the same is said of the list of all tokens, by the number of tokens and the command.
-/

/-- What is printed of the positions of a word: the `n`-th. -/
def reply (positions : List Int) (n : Int) : Output :=
  if n - 1 < 0 then .noMatchingEntry
  else
    match positions[(n - 1).toNat]? with
    | none => .noMatchingEntry
    | some position => .entry position

/-- `locate` with a word and an index that are right. -/
def find (targetWord : List UInt8) (n : Int) : Call Reg := do
  let s ← get
  if s.wordDictionary.entries.isEmpty || decide (n - 1 < 0) then
    modify (Session.print .noMatchingEntry)
  else do
    let retVector := (s.wordDictionary.lookup targetWord).getD []
    modify (Session.setDictionary (s.wordDictionary.insert targetWord retVector))
    match retVector[(n - 1).toNat]? with
    | none => modify (Session.print .noMatchingEntry)
    | some position => modify (Session.print (.entry position))
  pure .F

/-- `locate` with a word, an index and more tokens. -/
def located (targetWord index : List UInt8) (more : List (List UInt8)) : Call Reg :=
  match atoi index with
  | none => exit .undefined
  | some n =>
    if ¬ IsInt (n - 1) then exit .undefined
    else if !more.isEmpty || !validWord (lower targetWord) then invalid
    else find (lower targetWord) n

/-- A line, by its tokens. -/
def perform (disk : List UInt8 → Option (List UInt8)) (after : List UInt8) (reg : Reg) :
    List (List UInt8) → Call Reg
  | [] => pure reg
  | [token] =>
    match compareCmd token with
    | .N => do
      modify (Session.setDictionary ∅)
      pure .N
    | .E => pure .E
    | .L => pure .L
    | .F => exit .undefined
    | .P => invalid
  | [token, filename] =>
    match compareCmd token with
    | .L => load disk after filename
    | _ => invalid
  | token :: targetWord :: index :: more =>
    match compareCmd token with
    | .F => located targetWord index more
    | _ => invalid

theorem locate_eq {rest targetWord index : List UInt8} {more : List (List UInt8)}
    (h : words isBlank rest = targetWord :: index :: more) :
    locate rest = located targetWord index more := by
  obtain ⟨rest', hword, hrest'⟩ := strtok_of_cons h
  obtain ⟨rest'', hindex, hrest''⟩ := strtok_of_cons hrest'
  have hmore : (strtok isBlank rest'').isSome = !more.isEmpty := by
    cases more with
    | nil => rw [strtok_of_nil hrest'']; rfl
    | cons w ws =>
        obtain ⟨_, hnext, _⟩ := strtok_of_cons hrest''
        rw [hnext]
        rfl
  rw [locate, hword]
  dsimp only
  rw [hindex]
  dsimp only
  rw [hmore]
  rfl

variable {disk : List UInt8 → Option (List UInt8)} {after : List UInt8} {reg : Reg}

/-- A round of the loop, by the tokens of its line. -/
theorem execute_eq (inputStr : List UInt8) :
    execute disk after reg inputStr = perform disk after reg (tokens inputStr) := by
  rw [execute]
  -- by the number of tokens, as each call of `strtok` finds the next one or none
  cases hts : tokens inputStr with
  | nil => rw [strtok_of_nil hts]; rfl
  | cons token ts =>
      obtain ⟨rest, htoken, hrest⟩ := strtok_of_cons hts
      rw [htoken]
      dsimp only
      rw [command]
      cases ts with
      | nil =>
          -- the command stands alone
          rewrite [perform, locate, strtok_of_nil hrest]
          cases compareCmd token <;> rfl
      | cons w ts =>
          obtain ⟨rest', hword, hrest'⟩ := strtok_of_cons hrest
          cases ts with
          | nil =>
              rw [perform, locate, hword]
              dsimp only
              rw [strtok_of_nil hrest']
              cases compareCmd token <;> rfl
          | cons index more =>
              obtain ⟨rest'', hindex, _⟩ := strtok_of_cons hrest'
              rw [perform, locate_eq hrest, hword]
              dsimp only
              rw [hindex]
              cases compareCmd token <;> rfl

/-! ## The grammar

The grammar says nothing about the state: whether a line is right depends on its tokens, and for `load` on the files
that can be opened. `Judged` compares what the line does with that.
-/

/-- The lines to accept, with the command in any letter case. `disk` has the files that can be opened. -/
inductive Grammar (disk : List UInt8 → Option (List UInt8)) : List (List UInt8) → Prop
  | newCommand {token} : lower token = bytes "new" → Grammar disk [token]
  | endCommand {token} : lower token = bytes "end" → Grammar disk [token]
  | loadFile {token filename file} :
      lower token = bytes "load" → disk filename = some file → Grammar disk [token, filename]
  | locateWord {token targetWord index} :
      lower token = bytes "locate" → (∀ c ∈ targetWord, isDelim c = false) →
        Grammar disk [token, targetWord, index]

/-- The round of a line returns. For a line of the grammar it prints no message; for another it prints the
message and nothing else, changes no answer and does not end the session. -/
def Judged (disk : List UInt8 → Option (List UInt8)) (after : List UInt8) (reg : Reg) (s : Session)
    (inputStr : List UInt8) : Prop :=
  ∃ reg' t printed, execute disk after reg inputStr s = (.ok reg', t) ∧ t.output = s.output ++ printed ∧
    (Grammar disk (tokens inputStr) → Output.invalidCommand ∉ printed) ∧
    (¬ Grammar disk (tokens inputStr) →
      printed = [.invalidCommand] ∧ t.wordDictionary.Same s.wordDictionary ∧ reg' ≠ .E)

/-- Nothing that the line does is undefined or aborts: `locate` has a word, the index and the one below it
are `int`s, and the length of the file to load is not negative as an `int`. -/
def Defined (disk : List UInt8 → Option (List UInt8)) : List (List UInt8) → Prop
  | [] => True
  | [token] => lower token ≠ bytes "locate"
  | [token, filename] =>
    lower token = bytes "load" → ∀ file, disk filename = some file → 0 ≤ toInt file.length
  | token :: _ :: index :: _ =>
    lower token = bytes "locate" → ∃ n, atoi index = some n ∧ IsInt (n - 1)

theorem compareCmd_eq {token : List UInt8} :
    (compareCmd token = .N ↔ lower token = bytes "new") ∧
      (compareCmd token = .E ↔ lower token = bytes "end") ∧
      (compareCmd token = .F ↔ lower token = bytes "locate") ∧
      (compareCmd token = .L ↔ lower token = bytes "load") := by
  have hne : bytes "end" ≠ bytes "new" ∧ bytes "locate" ≠ bytes "new" ∧ bytes "locate" ≠ bytes "end" ∧
      bytes "load" ≠ bytes "new" ∧ bytes "load" ≠ bytes "end" ∧ bytes "load" ≠ bytes "locate" := by
    decide
  rw [compareCmd]
  grind

theorem isDelim_of_tolower : ∀ c : UInt8, isDelim (tolower c) = isDelim c := by
  have hall : ∀ n : Fin 256, isDelim (tolower ⟨⟨n⟩⟩) = isDelim ⟨⟨n⟩⟩ := by
    decide +kernel
  exact fun c => hall c.toBitVec.toFin

/-- Whether a word is valid does not depend on the case of its letters. -/
theorem validWord_lower_iff {w : List UInt8} :
    validWord (lower w) = true ↔ ∀ c ∈ w, isDelim c = false := by
  simp [validWord, lower, isDelim_of_tolower]

/-! ## What the commands do

One lemma for each kind of line. The cases are those of the grammar, or the number of tokens, each with the five
results of `compareCmd`.
-/

variable {s : Session} {token filename file targetWord index : List UInt8} {more ts : List (List UInt8)}
  {n : Int}

theorem invalid_apply (s : Session) : invalid s = (.ok .P, s.print .invalidCommand) := rfl

/-- `locate` replies with what the dictionary answers, and changes no answer. -/
theorem find_apply (word : List UInt8) (n : Int) (s : Session) :
    ∃ t, find word n s = (.ok .F, t) ∧
      t.output = s.output ++ [reply (s.wordDictionary.answers word) n] ∧
      t.wordDictionary.Same s.wordDictionary := by
  rw [find, bind_of_ok (get_apply s)]
  -- no index below one, no word in the dictionary, or the word is looked up
  by_cases hneg : n - 1 < 0
  · rw [if_pos (by simp [hneg]), reply, if_pos hneg]
    exact ⟨_, rfl, rfl, .refl _⟩
  by_cases hempty : s.wordDictionary.entries.isEmpty = true
  · rw [if_pos (by simp [hempty]), answers_of_isEmpty hempty, reply, if_neg hneg]
    exact ⟨_, rfl, rfl, .refl _⟩
  · -- the word is entered with the positions it has, maybe none
    rw [if_neg (by simp [hempty, hneg]), reply, if_neg hneg, answers]
    have hsame := s.wordDictionary.insert_same word
    cases ((s.wordDictionary.lookup word).getD [])[(n - 1).toNat]? with
    | none => exact ⟨_, rfl, rfl, hsame⟩
    | some position => exact ⟨_, rfl, rfl, hsame⟩

theorem reply_ne (positions : List Int) (n : Int) : reply positions n ≠ .invalidCommand := by
  rw [reply]
  split
  · simp
  · split <;> simp

/-- `load` enters the words of a file. -/
theorem load_ok (hfile : disk filename = some file) (hlen : 0 ≤ toInt file.length) (s : Session) :
    load disk after filename s =
      (.ok .L, s.setDictionary (generate (toInt file.length).toNat 0
        (cString (file.take (toInt file.length).toNat ++ after)) s.wordDictionary)) := by
  rw [load, hfile]
  dsimp only
  rw [if_neg (not_lt.mpr hlen), bind_of_ok (get_apply s), bind_of_ok (modify_apply _ _), pure_apply]

/-- A line does not return where it is not defined. -/
theorem perform_undefined (h : ¬ Defined disk ts) :
    ∃ e, ∀ after reg s, perform disk after reg ts s = (.error e, s) := by
  -- by the number of tokens: only `locate` and `load` can fail
  match ts, h with
  | [], h => exact absurd trivial h
  | [token], h =>
      have hlocate : compareCmd token = .F := compareCmd_eq.2.2.1.mpr (not_not.mp h)
      refine ⟨.undefined, fun after reg s => ?_⟩
      rw [perform, hlocate]
      rfl
  | [token, filename], h =>
      simp only [Defined, Classical.not_imp, not_forall, not_le] at h
      obtain ⟨htoken, file, hfile, hlen⟩ := h
      refine ⟨.abort, fun after reg s => ?_⟩
      rw [perform, compareCmd_eq.2.2.2.mpr htoken]
      exact load_abort hfile hlen
  | token :: targetWord :: index :: more, h =>
      simp only [Defined, Classical.not_imp, not_exists, not_and] at h
      obtain ⟨htoken, hindex⟩ := h
      refine ⟨.undefined, fun after reg s => ?_⟩
      rw [perform, compareCmd_eq.2.2.1.mpr htoken]
      dsimp only
      rw [located]
      cases hatoi : atoi index with
      | none => rfl
      | some n =>
          dsimp only
          rw [if_pos (hindex n hatoi)]
          rfl

/-- A line of the grammar that is defined. -/
theorem perform_accepted (hdefined : Defined disk ts) (h : Grammar disk ts) (s : Session) :
    ∃ reg' t printed, perform disk after reg ts s = (.ok reg', t) ∧ t.output = s.output ++ printed ∧
      Output.invalidCommand ∉ printed ∧ (reg' = .E ↔ ∃ token, ts = [token] ∧ lower token = bytes "end") := by
  -- a case for each command of the grammar
  cases h with
  | @newCommand token htoken =>
      have hnot : lower token ≠ bytes "end" := by rw [htoken]; decide
      rw [perform, compareCmd_eq.1.mpr htoken]
      exact ⟨.N, s.setDictionary ∅, [], rfl, (List.append_nil _).symm, by simp, by simp [hnot]⟩
  | @endCommand token htoken =>
      rw [perform, compareCmd_eq.2.1.mpr htoken]
      exact ⟨.E, s, [], rfl, by simp, by simp, by simp [htoken]⟩
  | @loadFile token filename file htoken hfile =>
      rw [perform, compareCmd_eq.2.2.2.mpr htoken]
      dsimp only
      rw [load_ok hfile (hdefined htoken file hfile)]
      refine ⟨.L, _, [], rfl, ?_, by simp, by simp⟩
      rw [Session.output_setDictionary, List.append_nil]
  | @locateWord token targetWord index htoken hword =>
      obtain ⟨n, hatoi, hint⟩ := hdefined htoken
      rw [perform, compareCmd_eq.2.2.1.mpr htoken]
      dsimp only
      rw [located, hatoi]
      dsimp only
      rw [if_neg (not_not_intro hint), if_neg (by simp [validWord_lower_iff.mpr hword])]
      obtain ⟨t, hfind, hout, -⟩ := find_apply (lower targetWord) n s
      refine ⟨.F, t, _, hfind, hout, ?_, by simp⟩
      simpa using (reply_ne _ n).symm

/-- A line that is none of the grammar. A lone `load` is passed over. -/
theorem perform_rejected (hdefined : Defined disk ts) (hne : ts ≠ []) (h : ¬ Grammar disk ts) :
    (∀ reg, perform disk after reg ts = invalid) ∨
      (∃ token, ts = [token] ∧ lower token = bytes "load") ∧
        ∀ reg, perform disk after reg ts = pure .L := by
  -- by the number of tokens; a command that stands alone is one of the grammar, or `load`
  match ts, hdefined, hne, h with
  | [token], hdefined, _, h =>
      simp only [perform]
      cases hcmd : compareCmd token with
      | N => exact absurd (.newCommand (compareCmd_eq.1.mp hcmd)) h
      | E => exact absurd (.endCommand (compareCmd_eq.2.1.mp hcmd)) h
      | L => exact Or.inr ⟨⟨token, rfl, compareCmd_eq.2.2.2.mp hcmd⟩, fun _ => rfl⟩
      | F => exact absurd (compareCmd_eq.2.2.1.mp hcmd) hdefined
      | P => exact Or.inl fun _ => rfl
  | [token, filename], _, _, h =>
      left
      simp only [perform]
      cases hcmd : compareCmd token with
      | L =>
          -- the file cannot be opened
          cases hfile : disk filename with
          | some file => exact absurd (.loadFile (compareCmd_eq.2.2.2.mp hcmd) hfile) h
          | none => simp [load, hfile]
      | _ => exact fun _ => rfl
  | token :: targetWord :: index :: more, hdefined, _, h =>
      left
      simp only [perform]
      cases hcmd : compareCmd token with
      | F =>
          obtain ⟨n, hatoi, hint⟩ := hdefined (compareCmd_eq.2.2.1.mp hcmd)
          simp only [located, hatoi]
          rw [if_neg (not_not_intro hint), if_pos]
          · exact fun _ => rfl
          · -- more tokens, or a word with a delimiter
            cases more with
            | cons => rfl
            | nil =>
                have hword : ¬ ∀ c ∈ targetWord, isDelim c = false :=
                  fun hword => h (.locateWord (compareCmd_eq.2.2.1.mp hcmd) hword)
                rw [← validWord_lower_iff] at hword
                simp [hword]
      | _ => exact fun _ => rfl

/-- **The command grammar.** In every state, a line that is not blank is treated as the grammar says if and
only if nothing that it does is undefined or aborts and it is not a lone `load`. -/
theorem judged_iff (disk : List UInt8 → Option (List UInt8)) (after : List UInt8) (reg : Reg)
    (s : Session) (inputStr : List UInt8) (hne : tokens inputStr ≠ []) :
    Judged disk after reg s inputStr ↔
      Defined disk (tokens inputStr) ∧
        ∀ token, tokens inputStr = [token] → lower token ≠ bytes "load" := by
  rw [Judged, execute_eq]
  generalize tokens inputStr = ts at hne ⊢
  constructor
  · rintro ⟨reg', t, printed, hrun, hout, -, hreject⟩
    -- a line that is judged returns, so it is defined
    have hdefined : Defined disk ts := by
      by_contra hnot
      obtain ⟨e, herror⟩ := perform_undefined hnot
      rw [herror] at hrun
      cases hrun
    refine ⟨hdefined, ?_⟩
    rintro token rfl hload
    -- the lone `load` prints nothing
    have hgrammar : ¬ Grammar disk [token] := by
      intro h
      cases h with
      | newCommand h => rw [hload] at h; exact absurd h (by decide)
      | endCommand h => rw [hload] at h; exact absurd h (by decide)
    obtain ⟨rfl, -, -⟩ := hreject hgrammar
    rw [perform, compareCmd_eq.2.2.2.mpr hload] at hrun
    cases hrun
    simp at hout
  · rintro ⟨hdefined, hload⟩
    -- a line of the grammar prints no message; another one has the message printed, as it is no lone `load`
    by_cases hgrammar : Grammar disk ts
    · obtain ⟨reg', t, printed, hrun, hout, hnot, -⟩ := perform_accepted hdefined hgrammar s
      exact ⟨reg', t, printed, hrun, hout, fun _ => hnot, fun h => absurd hgrammar h⟩
    · rcases perform_rejected hdefined hne hgrammar with hrun | ⟨⟨token, htoken, hlower⟩, -⟩
      · rw [hrun, invalid_apply]
        exact ⟨.P, _, _, rfl, rfl, fun h => absurd h hgrammar, fun _ => ⟨rfl, .refl _, by decide⟩⟩
      · exact absurd hlower (hload token htoken)

/-- A `locate` in capitals with a blank too many. -/
theorem judged_locate : Judged (fun _ => none) [] .N ⟨∅, []⟩ (bytes "LOCATE  Pie 2") :=
  (judged_iff _ _ _ _ _ (by decide)).mpr ⟨fun _ => ⟨2, by decide⟩, by
    have htokens : tokens (bytes "LOCATE  Pie 2") = [bytes "LOCATE", bytes "Pie", bytes "2"] := by decide
    simp [htokens]⟩

/-- `locate` alone has `validWord` read from `NULL`, and `load` alone gets no message. -/
theorem judged_alone :
    ¬ Judged (fun _ => none) [] .N ⟨∅, []⟩ (bytes "locate") ∧
      ¬ Judged (fun _ => none) [] .N ⟨∅, []⟩ (bytes "load") := by
  constructor
  · rintro ⟨reg', t, printed, hrun, -⟩
    cases hrun
  · rintro ⟨reg', t, printed, hrun, hout, -, hreject⟩
    have hgrammar : ¬ Grammar (fun _ => none) (tokens (bytes "load")) := by
      have htokens : tokens (bytes "load") = [bytes "load"] := by decide
      rw [htokens]
      intro h
      cases h with
      | newCommand h => exact absurd h (by decide)
      | endCommand h => exact absurd h (by decide)
    obtain ⟨rfl, -, -⟩ := hreject hgrammar
    cases hrun
    cases hout

end CS640.P1
