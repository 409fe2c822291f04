import CS640.Lib.Prog
import CS640.Lib.Words
import Mathlib.Data.List.AList
import Mathlib.Data.Nat.Digits.Defs

/-!
# The word locator of p1

The commands of `wl`: `new` clears the dictionary, `load` enters the words of a file with their positions,
`locate` says where a word comes for the `k`-th time, `end` ends. Lines, words and files are bytes. Of what
is printed, the prompt is left out.

`load` reads the whole file into a block that has no NUL at its end and gives that to `strtok`. The bytes
that follow the block in memory are a parameter: `after` has those up to some NUL, or more. `tolower` is
that of the C locale, where the bytes from `128` on are no letters.

Main result: `locate_iff`, for which bytes after the block `locate` answers as the file says.

The proof separates what is printed from what is read. `answers_iff` runs the three commands and reduces the
property to an equation between two lists of words, those that `load` enters and those of the file;
`lower_eq_iff_apart` then says when the two lists are the same, as a fact about words and the bytes that follow
them.

* `lookup_generate`: what the loop of `load` leaves in the dictionary.
* `answers_iff`: what the three commands print.
* `lower_eq_of_answers`: all answers together determine the words.
* `lower_eq_iff_apart`: the words read are those of the file.
-/

namespace CS640.P1

open CS640.Lib Prog

/-- A statement about every byte of a text is decided along the text, not over all bytes. -/
instance decidableBytes (text : List UInt8) (p : UInt8 → Prop) [DecidablePred p] :
    Decidable (∀ c ∈ text, p c) :=
  List.decidableBAll p text

/-!
## The program

The bytes that separate words, the functions of the C library, and the commands in the order of the source. `strtok`
is the one of `Lib.Words`, which gives the token and the rest.
-/

/-- The bytes of a literal. -/
def bytes (s : String) : List UInt8 := s.toList.map fun c => UInt8.ofNat c.toNat

/-- `delims`. -/
def delims : List UInt8 := bytes " ][!#$%&()*+,./:;<=>?\"@\\^_`\x7b|\x7d~-\n\t"

/-- `strtok` looks for the end of a word at these bytes. -/
def isDelim (c : UInt8) : Bool := delims.contains c

/-- The commands are split at these. -/
def isBlank (c : UInt8) : Bool := c == 32

def tolower (c : UInt8) : UInt8 := if 65 ≤ c ∧ c ≤ 90 then c + 32 else c

def lower (str : List UInt8) : List UInt8 := str.map tolower

/-- What a `char *` points to. -/
def cString (str : List UInt8) : List UInt8 := str.takeWhile (· != 0)

def isSpace (c : UInt8) : Bool := c == 32 || 9 ≤ c && c ≤ 13

def isDigit (c : UInt8) : Bool := 48 ≤ c && c ≤ 57

/-- The conversion to `int`. -/
def toInt (n : Int) : Int := n.bmod (2 ^ 32)

/-- The `int`s. -/
def IsInt (n : Int) : Prop := -2 ^ 31 ≤ n ∧ n < 2 ^ 31

instance (n : Int) : Decidable (IsInt n) := inferInstanceAs (Decidable (_ ∧ _))

/-- The digits at the start of a text. -/
def number (str : List UInt8) : Nat :=
  (str.takeWhile isDigit).foldl (fun n c => 10 * n + (c.toNat - 48)) 0

/-- `atoi`, which is not defined where the value is not an `int`. -/
def atoi (str : List UInt8) : Option Int :=
  let n : Int :=
    match str.dropWhile isSpace with
    | [] => 0
    | c :: rest =>
      if c = 45 then -(number rest : Int)
      else if c = 43 then number rest
      else number (c :: rest)
  if IsInt n then some n else none

/-- `reg`: which operation; `N` is `new`, `E` is `end`, `L` is `load`, `F` is `locate` and `P` is
`problem`. -/
inductive Reg where
  | N
  | E
  | L
  | F
  | P
  deriving DecidableEq, Repr

/-- `compare_cmd`. -/
def compareCmd (str : List UInt8) : Reg :=
  if lower str = bytes "new" then .N
  else if lower str = bytes "end" then .E
  else if lower str = bytes "locate" then .F
  else if lower str = bytes "load" then .L
  else .P

def validWord (str : List UInt8) : Bool := str.all fun c => !isDelim c

/-- A line that is printed. -/
inductive Output where
  | entry (position : Int)
  | noMatchingEntry
  | invalidCommand
  deriving DecidableEq, Repr

abbrev Dictionary := AList fun _ : List UInt8 => List Int

/-- `word_dictionary`, and what has been printed. -/
structure Session where
  wordDictionary : Dictionary
  output : List Output

namespace Session

def print (line : Output) (s : Session) : Session := { s with output := s.output ++ [line] }

def setDictionary (d : Dictionary) (s : Session) : Session := { s with wordDictionary := d }

theorem wordDictionary_setDictionary (d : Dictionary) (s : Session) :
    (s.setDictionary d).wordDictionary = d := rfl

theorem output_setDictionary (d : Dictionary) (s : Session) :
    (s.setDictionary d).output = s.output := rfl

end Session

/-- A word is entered with its position. -/
def enter (d : Dictionary) (word : List UInt8) (position : Int) : Dictionary :=
  match d.lookup word with
  | none => d.insert word [position]
  | some value => d.insert word (value ++ [position])

/-- The loop that enters the words of a text, at most `n`, from position `j + 1` on. -/
def generate : Nat → Nat → List UInt8 → Dictionary → Dictionary
  | 0, _, _, d => d
  | n + 1, j, text, d =>
    match strtok isDelim text with
    | none => d
    | some (word, rest) => generate n (j + 1) rest (enter d (lower word) (j + 1))

/-- A call that throws no exception. -/
abbrev Call (α : Type) := Prog Empty Session α

/-- An invalid command. -/
def invalid : Call Reg := do
  modify (Session.print .invalidCommand)
  pure .P

section Commands

variable (disk : List UInt8 → Option (List UInt8)) (after : List UInt8)

/-- `load`. An allocation of a negative length throws, and nothing catches that. -/
def load (filename : List UInt8) : Call Reg :=
  match disk filename with
  | none => invalid
  | some file => do
    let fileLength := toInt file.length
    if fileLength < 0 then exit .abort
    else do
      let newLine := file.take fileLength.toNat
      let s ← get
      modify (Session.setDictionary
        (generate fileLength.toNat 0 (cString (newLine ++ after)) s.wordDictionary))
      pure .L

/-- `locate`, with the rest of the line. Without a word, `validWord` is called with `NULL`. -/
def locate (rest : List UInt8) : Call Reg :=
  match strtok isBlank rest with
  | none => exit .undefined
  | some (targetWord, rest) =>
    match strtok isBlank rest with
    | none => invalid
    | some (index, rest) =>
      match atoi index with
      | none => exit .undefined
      | some n =>
        if ¬ IsInt (n - 1) then exit .undefined
        else if (strtok isBlank rest).isSome || !validWord (lower targetWord) then invalid
        else do
          let s ← get
          if s.wordDictionary.entries.isEmpty || decide (n - 1 < 0) then
            modify (Session.print .noMatchingEntry)
          else do
            let retVector := (s.wordDictionary.lookup (lower targetWord)).getD []
            modify (Session.setDictionary (s.wordDictionary.insert (lower targetWord) retVector))
            match retVector[(n - 1).toNat]? with
            | none => modify (Session.print .noMatchingEntry)
            | some position => modify (Session.print (.entry position))
          pure .F

/-- A line that is not empty: its command, and the rest of it. With more than a file name after `load`,
the loop goes round once more, to the message. -/
def command (token rest : List UInt8) : Call Reg :=
  match compareCmd token with
  | .N =>
    match strtok isBlank rest with
    | none => do
      modify (Session.setDictionary ∅)
      pure .N
    | some _ => invalid
  | .E =>
    match strtok isBlank rest with
    | none => pure .E
    | some _ => invalid
  | .L =>
    match strtok isBlank rest with
    | none => pure .L
    | some (filename, rest) =>
      match strtok isBlank rest with
      | none => load disk after filename
      | some _ => invalid
  | .F => locate rest
  | .P => invalid

/-- A round of the loop of `main`. After an empty line, `reg` is as before. -/
def execute (reg : Reg) (inputStr : List UInt8) : Call Reg :=
  match strtok isBlank (cString inputStr) with
  | none => pure reg
  | some (token, rest) => command disk after token rest

/-- `main`, as long as there are lines. -/
def main (reg : Reg) : List (List UInt8) → Call Reg
  | [] => pure reg
  | inputStr :: lines => do
    let reg ← execute disk after reg inputStr
    if reg = .E then pure reg else main reg lines

end Commands

/-! ## What `locate` should say

The answer is stated with the words of the file and their positions, without the dictionary and without `strtok`.
`Answers` quantifies over every name and disk, so that it is about the program and not about one file name.
-/

/-- A word that can be asked for. -/
def IsWord (w : List UInt8) : Prop := w ≠ [] ∧ ∀ c ∈ w, isDelim c = false ∧ c ≠ 0

instance (w : List UInt8) : Decidable (IsWord w) := inferInstanceAs (Decidable (_ ∧ _))

/-- The position of the `k`-th of these words that is `w`, whatever the case of its letters. -/
def answer (ws : List (List UInt8)) (w : List UInt8) (k : Nat) : Output :=
  match (positions (lower w) 1 (ws.map lower))[k - 1]? with
  | some i => .entry i
  | none => .noMatchingEntry

/-- A number in decimal notation. -/
def decimal (k : Nat) : List UInt8 := (Nat.digits 10 k).reverse.map fun d => UInt8.ofNat (48 + d)

/-- A name that `load` takes. -/
def IsName (name : List UInt8) : Prop := name ≠ [] ∧ ∀ c ∈ name, c ≠ 32 ∧ c ≠ 0

/-- After `new` and `load`, `locate w k` prints what the file says, and nothing else is printed. -/
def Answers (after file w : List UInt8) (k : Nat) : Prop :=
  ∀ disk name, IsName name → disk name = some file → ∀ (reg : Reg) (s : Session), ∃ t reg',
    main disk after reg
        [bytes "new", bytes "load " ++ name, bytes "locate " ++ w ++ bytes " " ++ decimal k] s =
      (.ok reg', t) ∧ t.output = s.output ++ [answer (words isDelim file) w k]

/-! ## The dictionary

A word is entered in lower case, with its position at the end of the positions it has. So the loop leaves for each
word the positions at which it comes in the text, in their order, up to the bound on the number of words.
-/

theorem lookup_enter (d : Dictionary) (word u : List UInt8) (i : Int) :
    (enter d word i).lookup u = if u = word then some ((d.lookup word).getD [] ++ [i]) else d.lookup u := by
  -- the word itself, and the others
  by_cases h : u = word
  · subst h
    rw [if_pos rfl, enter]
    cases d.lookup u with
    | none => exact AList.lookup_insert d
    | some value => exact AList.lookup_insert d
  · rw [if_neg h, enter]
    cases d.lookup word with
    | none => exact AList.lookup_insert_ne h
    | some value => exact AList.lookup_insert_ne h

/-- The dictionary has the positions of the words that were entered. -/
theorem lookup_generate (u : List UInt8) :
    ∀ (n j : Nat) (text : List UInt8) (d : Dictionary),
      ((generate n j text d).lookup u).getD [] = (d.lookup u).getD [] ++
        (positions u (j + 1) (((words isDelim text).take n).map lower)).map Nat.cast := by
  intro n
  induction n with
  | zero =>
      intro j text d
      simp [generate, positions]
  | succ n ih =>
      intro j text d
      -- the text has no word left, or a first word and the rest
      rcases strtok_words (p := isDelim) text with ⟨hnone, hwords⟩ | ⟨word, rest, hsome, hwords⟩
      · simp [generate, hnone, hwords, positions]
      · rw [generate, hsome, hwords]
        dsimp only
        rw [ih, lookup_enter, List.take_succ_cons, List.map_cons, positions]
        -- the word that is asked for is entered at `j + 1`, another one does not matter to it
        by_cases h : lower word = u
        · subst h
          simp [List.append_assoc]
        · simp [h, Ne.symm h]

theorem isDelim_tolower : ∀ c : UInt8, isDelim c = false → isDelim (tolower c) = false := by
  have hall : ∀ n : Fin 256, isDelim ⟨⟨n⟩⟩ = false → isDelim (tolower ⟨⟨n⟩⟩) = false := by
    decide +kernel
  exact fun c => hall c.toBitVec.toFin

theorem validWord_lower {w : List UInt8} (h : ∀ c ∈ w, isDelim c = false) :
    validWord (lower w) = true := by
  simp only [validWord, lower, List.all_map, List.all_eq_true]
  intro c hc
  simp [isDelim_tolower c (h c hc)]

/-! ## Numbers

The number after the word is read back by `atoi`, for all numbers that an `int` can have. Decimal notation is that
of `Nat.digits`, whose list has the last digit first.
-/

theorem isDigit_digit {d : Nat} (h : d < 10) :
    isDigit (UInt8.ofNat (48 + d)) = true ∧ isSpace (UInt8.ofNat (48 + d)) = false ∧
      UInt8.ofNat (48 + d) ≠ 45 ∧ UInt8.ofNat (48 + d) ≠ 43 ∧ (UInt8.ofNat (48 + d)).toNat - 48 = d ∧
      UInt8.ofNat (48 + d) ≠ 0 ∧ UInt8.ofNat (48 + d) ≠ 32 := by
  have hall : ∀ d : Fin 10, isDigit (UInt8.ofNat (48 + d)) = true ∧
      isSpace (UInt8.ofNat (48 + d)) = false ∧ UInt8.ofNat (48 + d) ≠ 45 ∧ UInt8.ofNat (48 + d) ≠ 43 ∧
      (UInt8.ofNat (48 + d)).toNat - 48 = d ∧ UInt8.ofNat (48 + d) ≠ 0 ∧
      UInt8.ofNat (48 + d) ≠ 32 := by
    decide
  exact hall ⟨d, h⟩

/-- The digits of a number. -/
theorem mem_decimal {k : Nat} {c : UInt8} (h : c ∈ decimal k) :
    isDigit c = true ∧ isSpace c = false ∧ c ≠ 45 ∧ c ≠ 43 ∧ c ≠ 0 ∧ c ≠ 32 := by
  obtain ⟨d, hd, rfl⟩ := List.mem_map.mp h
  have hlt := Nat.digits_lt_base (by decide : 1 < 10) (List.mem_reverse.mp hd)
  obtain ⟨h1, h2, h3, h4, _, h5, h6⟩ := isDigit_digit hlt
  exact ⟨h1, h2, h3, h4, h5, h6⟩

theorem decimal_ne_nil {k : Nat} (h : 1 ≤ k) : decimal k ≠ [] := by
  simp [decimal, Nat.digits_ne_nil_iff_ne_zero]
  omega

theorem number_decimal (k : Nat) : number (decimal k) = k := by
  have htake : (decimal k).takeWhile isDigit = decimal k := by
    rw [List.takeWhile_eq_self_iff]
    exact fun c hc => (mem_decimal hc).1
  -- the digits come with the last one first, so the fold over the text is one from the right
  have hfold : ∀ digits : List Nat, (∀ d ∈ digits, d < 10) →
      digits.foldr (fun d n => 10 * n + ((UInt8.ofNat (48 + d)).toNat - 48)) 0 = Nat.ofDigits 10 digits := by
    intro digits hdigits
    induction digits with
    | nil => rfl
    | cons d digits ih =>
        rw [List.foldr_cons, ih (fun b hb => hdigits b (List.mem_cons_of_mem d hb)), Nat.ofDigits_cons,
          (isDigit_digit (hdigits d List.mem_cons_self)).2.2.2.2.1]
        omega
  rw [number, htake, decimal, List.foldl_map, List.foldl_reverse,
    hfold _ (fun d hd => Nat.digits_lt_base (by decide) hd), Nat.ofDigits_digits]

theorem atoi_decimal {k : Nat} (h : 1 ≤ k) :
    atoi (decimal k) = if k < 2 ^ 31 then some (k : Int) else none := by
  have hnumber := number_decimal k
  have hne := decimal_ne_nil h
  have hmem : ∀ c ∈ decimal k, _ := fun c => mem_decimal (k := k) (c := c)
  -- a number has digits, and neither a blank nor a sign before them
  cases hdec : decimal k with
  | nil => exact absurd hdec hne
  | cons c rest =>
      rw [hdec] at hnumber hmem
      obtain ⟨_, hspace, hminus, hplus, _, _⟩ := hmem c List.mem_cons_self
      rw [atoi, List.dropWhile_cons_of_neg (by simp [hspace])]
      simp only [hminus, hplus, if_false, hnumber, IsInt]
      congr 1
      simp only [eq_iff_iff]
      omega

/-! ## The commands

Each of the three lines is taken apart by `strtok`: the command is the token before the first blank, and what
follows it is the argument.
-/

variable {disk : List UInt8 → Option (List UInt8)} {after file name w : List UInt8} {k : Nat} {reg : Reg}
  {s : Session}

theorem cString_eq {str : List UInt8} (h : ∀ c ∈ str, c ≠ 0) : cString str = str := by
  rw [cString, List.takeWhile_eq_self_iff]
  simpa using h

theorem not_isBlank {c : UInt8} (h : c ≠ 32) : isBlank c = false := by
  simpa [isBlank] using h

/-- The first token of a line, and the rest. -/
theorem execute_cons {token rest : List UInt8} (hne : token ≠ [])
    (htoken : ∀ c ∈ token, c ≠ 32 ∧ c ≠ 0) (hrest : ∀ c ∈ rest, c ≠ 0) :
    execute disk after reg (token ++ 32 :: rest) = command disk after token rest := by
  have hnul : ∀ c ∈ token ++ 32 :: rest, c ≠ 0 := by
    intro c hc
    rcases List.mem_append.mp hc with hc | hc
    · exact (htoken c hc).2
    · rcases List.mem_cons.mp hc with rfl | hc
      · decide
      · exact hrest c hc
  rw [execute, cString_eq hnul, strtok_run_cons rest hne (fun c hc => not_isBlank (htoken c hc).1) rfl]

theorem execute_new : execute disk after reg (bytes "new") s = (.ok .N, s.setDictionary ∅) := rfl

theorem execute_load (h : IsName name) :
    execute disk after reg (bytes "load " ++ name) = load disk after name := by
  have hline : bytes "load " ++ name = bytes "load" ++ 32 :: name := rfl
  have hcmd : compareCmd (bytes "load") = .L := by decide
  have hname := strtok_run h.1 fun c hc => not_isBlank (h.2 c hc).1
  rw [hline, execute_cons (by decide) (by decide) (fun c hc => (h.2 c hc).2), command, hcmd]
  dsimp only
  rw [hname]
  rfl

/-- What `locate` prints of the positions of a word. -/
def nth (positions : List Int) (k : Nat) : Output :=
  match positions[k - 1]? with
  | some i => .entry i
  | none => .noMatchingEntry

theorem answer_eq_nth (ws : List (List UInt8)) :
    answer ws w k = nth ((positions (lower w) 1 (ws.map lower)).map Nat.cast) k := by
  rw [answer, nth, List.getElem?_map]
  cases (positions (lower w) 1 (ws.map lower))[k - 1]? with
  | none => rfl
  | some i => rfl

theorem execute_locate (hw : IsWord w) :
    execute disk after reg (bytes "locate " ++ w ++ bytes " " ++ decimal k) =
      locate (w ++ 32 :: decimal k) := by
  have hline : bytes "locate " ++ w ++ bytes " " ++ decimal k =
      bytes "locate" ++ 32 :: (w ++ 32 :: decimal k) := by
    have hblank : bytes " " = [32] := rfl
    rw [hblank]
    simp [bytes]
  have hcmd : compareCmd (bytes "locate") = .F := by decide
  have hnul : ∀ c ∈ w ++ 32 :: decimal k, c ≠ 0 := by
    intro c hc
    rcases List.mem_append.mp hc with hc | hc
    · exact (hw.2 c hc).2
    · rcases List.mem_cons.mp hc with rfl | hc
      · decide
      · exact (mem_decimal hc).2.2.2.2.1
  rw [hline, execute_cons (by decide) (by decide) hnul, command, hcmd]

theorem IsWord.not_blank (h : IsWord w) : ∀ c ∈ w, isBlank c = false := by
  intro c hc
  apply not_isBlank
  rintro rfl
  exact absurd (h.2 32 hc).1 (by decide)

theorem strtok_locate (hw : IsWord w) (hk : 1 ≤ k) :
    strtok isBlank (w ++ 32 :: decimal k) = some (w, decimal k) ∧
      strtok isBlank (decimal k) = some (decimal k, []) :=
  ⟨strtok_run_cons _ hw.1 hw.not_blank rfl,
    strtok_run (decimal_ne_nil hk) fun _ hc => not_isBlank (mem_decimal hc).2.2.2.2.2⟩

theorem locate_ok (hw : IsWord w) (hk : 1 ≤ k) (hint : k < 2 ^ 31) :
    ∃ t, locate (w ++ 32 :: decimal k) s = (.ok .F, t) ∧
      t.output = s.output ++ [nth ((s.wordDictionary.lookup (lower w)).getD []) k] := by
  obtain ⟨hword, hnumber⟩ := strtok_locate hw hk
  have hvalid := validWord_lower fun c hc => (hw.2 c hc).1
  have hfits : IsInt ((k : Int) - 1) := by
    rw [IsInt]
    omega
  have hindex : ((k : Int) - 1).toNat = k - 1 := by omega
  have hpos : ¬ (k : Int) - 1 < 0 := by omega
  rw [locate, hword]
  dsimp only
  rw [hnumber]
  dsimp only
  rw [atoi_decimal hk, if_pos hint]
  dsimp only
  rw [if_neg (not_not_intro hfits), strtok_nil, hvalid, hindex, if_neg (by simp), bind_of_ok (get_apply s)]
  -- without any word in it the dictionary is not looked at
  split
  · next hempty =>
      have hnone : s.wordDictionary.lookup (lower w) = none := by
        have hentries : s.wordDictionary.entries = [] := by simpa [hpos] using hempty
        rw [AList.lookup, hentries]
        rfl
      refine ⟨_, rfl, ?_⟩
      rw [hnone]
      rfl
  · rw [nth]
    cases ((s.wordDictionary.lookup (lower w)).getD [])[k - 1]? with
    | none => exact ⟨_, rfl, rfl⟩
    | some i => exact ⟨_, rfl, rfl⟩

theorem locate_undefined (hw : IsWord w) (hk : 1 ≤ k) (hint : ¬ k < 2 ^ 31) :
    locate (w ++ 32 :: decimal k) s = (.error .undefined, s) := by
  obtain ⟨hword, hnumber⟩ := strtok_locate hw hk
  rw [locate, hword]
  dsimp only
  rw [hnumber]
  dsimp only
  rw [atoi_decimal hk, if_neg hint]
  rfl

/-! ## A session

The three commands run one after another. `load` either ends the program, because the length is negative as an
`int`, or enters the words; `locate` either is not defined or prints one line.
-/

/-- The words that `load` enters. -/
def loaded (after file : List UInt8) : List (List UInt8) :=
  (words isDelim (cString (file.take (toInt file.length).toNat ++ after))).take
    (toInt file.length).toNat

/-- The dictionary after `new` and `load`. -/
def dictionary (after file : List UInt8) : Dictionary :=
  generate (toInt file.length).toNat 0 (cString (file.take (toInt file.length).toNat ++ after)) ∅

theorem lookup_dictionary (after file u : List UInt8) :
    ((dictionary after file).lookup u).getD [] =
      (positions u 1 ((loaded after file).map lower)).map Nat.cast := by
  rw [dictionary, lookup_generate, AList.lookup_empty, Option.getD_none, List.nil_append,
    Nat.zero_add, loaded]

theorem load_apply (hdisk : disk name = some file) (hlen : 0 ≤ toInt file.length) :
    load disk after name (s.setDictionary ∅) = (.ok .L, s.setDictionary (dictionary after file)) := by
  rw [load, hdisk]
  dsimp only
  rw [if_neg (not_lt.mpr hlen), bind_of_ok (get_apply _), bind_of_ok (modify_apply _ _), pure_apply]
  rfl

theorem load_abort (hdisk : disk name = some file) (hlen : toInt file.length < 0) :
    load disk after name s = (.error .abort, s) := by
  rw [load, hdisk]
  dsimp only
  rw [if_pos hlen]
  rfl

/-- The commands of a session. -/
def commands (name w : List UInt8) (k : Nat) : List (List UInt8) :=
  [bytes "new", bytes "load " ++ name, bytes "locate " ++ w ++ bytes " " ++ decimal k]

variable (hname : IsName name) (hdisk : disk name = some file) (hw : IsWord w) (hk : 1 ≤ k)
include hname hdisk

theorem main_load (hlen : 0 ≤ toInt file.length) :
    main disk after reg (commands name w k) s =
      main disk after .L [bytes "locate " ++ w ++ bytes " " ++ decimal k]
        (s.setDictionary (dictionary after file)) := by
  rw [commands, main, bind_of_ok execute_new, if_neg (by decide), main, execute_load hname,
    bind_of_ok (load_apply hdisk hlen), if_neg (by decide)]

theorem main_abort (hlen : toInt file.length < 0) :
    main disk after reg (commands name w k) s = (.error .abort, s.setDictionary ∅) := by
  rw [commands, main, bind_of_ok execute_new, if_neg (by decide), main, execute_load hname,
    bind_of_error (load_abort hdisk hlen)]

include hw hk

theorem main_undefined (hlen : 0 ≤ toInt file.length) (hint : ¬ k < 2 ^ 31) :
    (main disk after reg (commands name w k) s).1 = .error .undefined := by
  rw [main_load hname hdisk hlen, main, execute_locate hw, bind_of_error (locate_undefined hw hk hint)]

omit hname hdisk in
/-- `locate`, from any dictionary. -/
theorem main_locate (hint : k < 2 ^ 31) (s : Session) :
    ∃ t, main disk after .L [bytes "locate " ++ w ++ bytes " " ++ decimal k] s = (.ok .F, t) ∧
      t.output = s.output ++ [nth ((s.wordDictionary.lookup (lower w)).getD []) k] := by
  obtain ⟨t, hrun, hout⟩ := locate_ok (s := s) hw hk hint
  refine ⟨t, ?_, hout⟩
  rw [main, execute_locate hw, bind_of_ok hrun, if_neg (by decide)]
  rfl

theorem main_ok (hlen : 0 ≤ toInt file.length) (hint : k < 2 ^ 31) :
    ∃ t, main disk after reg (commands name w k) s = (.ok .F, t) ∧
      t.output = s.output ++ [answer (loaded after file) w k] := by
  have h : ∃ t, main disk after .L _ _ = _ ∧ _ :=
    main_locate hw hk hint (s.setDictionary (dictionary after file))
  rw [Session.wordDictionary_setDictionary, Session.output_setDictionary, lookup_dictionary,
    ← answer_eq_nth, ← main_load hname hdisk hlen] at h
  exact h

omit hname hdisk hw hk

/-- What an answer takes, and that it is right if and only if the dictionary and the file agree. -/
theorem answers_iff (hw : IsWord w) (hk : 1 ≤ k) :
    Answers after file w k ↔ 0 ≤ toInt file.length ∧ k < 2 ^ 31 ∧
      answer (loaded after file) w k = answer (words isDelim file) w k := by
  constructor
  · -- the property is used for one name and one disk, where the three runs are computed
    intro h
    have hname : IsName [97] := by
      refine ⟨by decide, ?_⟩
      simp
    let disk : List UInt8 → Option (List UInt8) := fun _ => some file
    have hdisk : disk [97] = some file := rfl
    obtain ⟨t, reg', hrun, hout⟩ := h disk [97] hname hdisk .E ⟨∅, []⟩
    change main disk after .E (commands [97] w k) ⟨∅, []⟩ = _ at hrun
    -- a length that is negative, a number that is not an `int`, or an answer
    rcases lt_or_ge (toInt file.length) 0 with hlen | hlen
    · rw [main_abort hname hdisk hlen] at hrun
      cases hrun
    · by_cases hint : k < 2 ^ 31
      · obtain ⟨u, hrun', hout'⟩ : ∃ u, main disk after .E (commands [97] w k) ⟨∅, []⟩ = (.ok .F, u) ∧ _ :=
          main_ok hname hdisk hw hk hlen hint
        rw [hrun] at hrun'
        cases hrun'
        rw [hout] at hout'
        exact ⟨hlen, hint, by simpa using hout'.symm⟩
      · have hbad : (main disk after .E (commands [97] w k) ⟨∅, []⟩).1 = _ :=
          main_undefined hname hdisk hw hk hlen hint
        rw [hrun] at hbad
        cases hbad
  · rintro ⟨hlen, hint, heq⟩ disk name hname hdisk reg s
    obtain ⟨t, hrun, hout⟩ := main_ok hname hdisk hw hk hlen hint
    exact ⟨t, .F, hrun, by rw [hout, heq]⟩

/-! ## What follows the block

The block has no NUL at its end, so `strtok` goes on into what follows it. The last word of the file may go on
there, and there may be further words; the loop enters at most as many words as the file has bytes, which is what
saves a file of one character. The words of the text are split at the last delimiter of the file (`words_last`) and
at the first one after it (`words_rest`).
-/

theorem isWord_of_mem {text : List UInt8} (h : w ∈ words isDelim text) (hnul : ∀ c ∈ text, c ≠ 0) :
    IsWord w := by
  obtain ⟨hne, hmem⟩ := mem_words h
  exact ⟨hne, fun c hc => ⟨(hmem c hc).1, hnul c (hmem c hc).2⟩⟩

theorem length_lower (str : List UInt8) : (lower str).length = str.length := List.length_map _

theorem answer_eq_iff {xs ys : List (List UInt8)} :
    answer xs w k = answer ys w k ↔ (positions (lower w) 1 (xs.map lower))[k - 1]? =
      (positions (lower w) 1 (ys.map lower))[k - 1]? := by
  rw [answer, answer]
  cases (positions (lower w) 1 (xs.map lower))[k - 1]? with
  | none => cases (positions (lower w) 1 (ys.map lower))[k - 1]? <;> simp
  | some i => cases (positions (lower w) 1 (ys.map lower))[k - 1]? <;> simp

/-- The answers up to `INT_MAX` tell two lists of fewer words apart. -/
theorem lower_eq_of_answers {xs ys : List (List UInt8)} (hxs : ∀ w ∈ xs, IsWord w)
    (hys : ∀ w ∈ ys, IsWord w) (hx : xs.length < 2 ^ 31) (hy : ys.length < 2 ^ 31)
    (h : ∀ w, IsWord w → ∀ k, 1 ≤ k → k < 2 ^ 31 → answer xs w k = answer ys w k) :
    xs.map lower = ys.map lower := by
  apply eq_of_positions 1
  intro u hu
  -- a word in lower case is one of the words, from one list or the other
  have hword : ∃ w, IsWord w ∧ lower w = u := by
    rcases hu with hu | hu
    · obtain ⟨w, hw, rfl⟩ := List.mem_map.mp hu
      exact ⟨w, hxs w hw, rfl⟩
    · obtain ⟨w, hw, rfl⟩ := List.mem_map.mp hu
      exact ⟨w, hys w hw, rfl⟩
  obtain ⟨w, hw, rfl⟩ := hword
  have hlenx := length_positions (lower w) 1 (xs.map lower)
  have hleny := length_positions (lower w) 1 (ys.map lower)
  rw [List.length_map] at hlenx hleny
  apply List.ext_getElem?
  intro i
  -- beyond `INT_MAX` neither list has a position
  by_cases hi : i + 1 < 2 ^ 31
  · exact answer_eq_iff.mp (h w hw (i + 1) (Nat.le_add_left 1 i) hi)
  · rw [List.getElem?_eq_none (by omega), List.getElem?_eq_none (by omega)]

/-- What is read after a text: the rest of its last word, and further words. -/
theorem words_rest (rest : List UInt8) :
    ∃ q ws, (∀ c ∈ q, isDelim c = false) ∧
      (∀ r, words isDelim (r ++ rest) = words isDelim (r ++ q) ++ ws) ∧
      (q = [] → ∀ d ∈ rest.head?, isDelim d = true) ∧
      (q = [] → ws = [] → ∀ c ∈ rest, isDelim c = true) := by
  -- what follows has no delimiter at all, or a first one
  rcases first_delimiter (p := isDelim) rest with hrun | ⟨q, d, after, rfl, hrun, hd⟩
  · refine ⟨rest, [], hrun, fun r => by rw [List.append_nil], ?_, ?_⟩
    · rintro rfl
      simp
    · rintro rfl _
      simp
  · refine ⟨q, words isDelim after, hrun, fun r => ?_, ?_, ?_⟩
    · rw [← List.append_assoc, words_append_cons (r ++ q) after hd]
    · rintro rfl
      simpa using hd
    · rintro rfl hnil
      have hall := words_eq_nil_iff.mp hnil
      simpa [hd] using hall

/-- Nothing that follows the file is taken for a part of it: its last word does not go on, and there are
no further words, unless the file has just one character, since `load` enters no more words than that. -/
def Apart (after file : List UInt8) : Prop :=
  file = [] ∨ (∀ c ∈ cString after, isDelim c = true) ∨
    ∃ c, file = [c] ∧ isDelim c = false ∧ ∀ d ∈ (cString after).head?, isDelim d = true

theorem length_words_le (file : List UInt8) : (words isDelim file).length ≤ file.length := by
  have hlen := length_words (p := isDelim) file
  cases file with
  | nil => simp [words_nil]
  | cons c file =>
      simp only [List.length_cons] at hlen ⊢
      omega

theorem lower_eq_iff_apart (rest : List UInt8) (hafter : cString after = rest) :
    ((words isDelim (file ++ rest)).take file.length).map lower = (words isDelim file).map lower ↔
      Apart after file := by
  subst hafter
  constructor
  · intro heq
    by_cases hempty : file = []
    · exact Or.inl hempty
    obtain ⟨pre, r, ws, hfile, hrun, hwords, hlen⟩ := words_last (p := isDelim) file
    obtain ⟨q, further, hq, hrest, hhead, hall⟩ := words_rest (cString after)
    have hfull := hwords []
    rw [List.append_nil, List.append_nil, words_run hrun] at hfull
    have hrq : ∀ c ∈ r ++ q, isDelim c = false := by
      intro c hc
      exact (List.mem_append.mp hc).elim (hrun c) (hq c)
    rw [hwords, hrest, words_run hrq, hfull] at heq
    have hcount := congrArg List.length heq
    have hpos := List.length_pos_of_ne_nil hempty
    have hsize := congrArg List.length hfile
    rw [List.length_append] at hsize
    simp only [List.length_map, List.length_take, List.length_append] at hcount
    -- `q` is how the last word goes on, `further` are the words after it
    by_cases hqnil : q = []
    · by_cases hfurther : further = []
      · exact Or.inr (Or.inl (hall hqnil hfurther))
      · -- more words follow, which fit in after a file of one character only
        have hmore := List.length_pos_of_ne_nil hfurther
        -- a file that ends with a delimiter has room for one more word at least
        by_cases hr : r = []
        · simp [hr, hqnil] at hcount hsize
          omega
        · have hrpos := List.length_pos_of_ne_nil hr
          simp [hr, hqnil] at hcount
          have hone : pre.length = 0 ∧ r.length = 1 := by omega
          obtain ⟨c, hc⟩ := List.length_eq_one_iff.mp hone.2
          rw [List.eq_nil_of_length_eq_zero hone.1, hc] at hfile
          exact Or.inr (Or.inr ⟨c, hfile, hrun c (by simp [hc]), hhead hqnil⟩)
    · have hqpos := List.length_pos_of_ne_nil hqnil
      -- a word begins with what follows
      by_cases hr : r = []
      · simp [hr, hqnil] at hcount hsize
        omega
      · -- the last word goes on
        have hrpos := List.length_pos_of_ne_nil hr
        have hget := congrArg (fun l : List (List UInt8) => l[ws.length]?) heq
        have hin : ws.length < file.length := by omega
        simp [hr, hqnil, hin] at hget
        have hlengths := congrArg List.length hget
        rw [length_lower, length_lower, List.length_append] at hlengths
        omega
  · -- nothing is read, only delimiters are, or the one word that is entered is that of the file
    rintro (rfl | hdelims | ⟨c, rfl, hc, hhead⟩)
    · simp [words_nil]
    · rw [words_append_delimiters file hdelims, List.take_of_length_le (length_words_le file)]
    · have hword : words isDelim [c] = [[c]] := words_run (by simpa using hc)
      cases hafter : cString after with
      | nil => simp [hword]
      | cons d rest =>
          rw [hafter] at hhead
          rw [words_append_cons [c] rest (hhead d rfl), hword]
          rfl

theorem toInt_eq {n : Nat} (h : n < 2 ^ 31) : toInt n = n := by
  rw [toInt, Int.bmod_eq_of_le (by omega) (by omega)]

theorem loaded_eq (hnul : ∀ c ∈ file, c ≠ 0) (hlen : file.length < 2 ^ 31) :
    loaded after file = (words isDelim (file ++ cString after)).take file.length := by
  have hcString : cString (file ++ after) = file ++ cString after := by
    rw [cString, List.takeWhile_append_of_pos (by simpa using hnul), cString]
  rw [loaded, toInt_eq hlen, Int.toNat_natCast, List.take_length, hcString]

/-- The words that are entered, and their number. -/
theorem isWord_of_mem_loaded (h : w ∈ loaded after file) : IsWord w := by
  refine isWord_of_mem (List.mem_of_mem_take h) fun c hc => ?_
  simpa using List.mem_takeWhile_imp hc

theorem length_loaded (after file : List UInt8) : (loaded after file).length < 2 ^ 31 := by
  have hlt : toInt file.length < 2 ^ 31 := Int.bmod_lt (by decide)
  rw [loaded, List.length_take]
  omega

theorem answer_congr {xs ys : List (List UInt8)} (h : xs.map lower = ys.map lower) :
    answer xs w k = answer ys w k := by
  rw [answer, h, answer]

/-- What is read is a block that the length as an `int` gives. -/
theorem loaded_block (hlen : 0 ≤ toInt file.length) :
    ∃ block, (∀ after, loaded after file = loaded after block) ∧ block.length < 2 ^ 31 ∧
      (block.length : Int) = toInt file.length ∧ ∀ c ∈ block, c ∈ file := by
  obtain ⟨m, hm⟩ := Int.eq_ofNat_of_zero_le hlen
  have hlt : toInt file.length < 2 ^ 31 := Int.bmod_lt (by decide)
  have hle : m ≤ file.length := by
    -- `toInt` is the remainder, or what is missing to the next multiple
    have hmod : toInt file.length = (file.length : Int) % 2 ^ 32 ∨
        toInt file.length = (file.length : Int) % 2 ^ 32 - 2 ^ 32 := by
      rw [toInt, Int.bmod_def]
      split
      · exact Or.inl rfl
      · exact Or.inr rfl
    omega
  have hblock : (file.take m).length = m := by
    rw [List.length_take, Nat.min_eq_left hle]
  have hint : toInt ((file.take m).length : Nat) = m := by
    rw [hblock, toInt_eq (by omega)]
  refine ⟨file.take m, fun after => ?_, by omega, by omega, fun c hc => List.mem_of_mem_take hc⟩
  rw [loaded, loaded, hint, hm, Int.toNat_natCast, List.take_take, Nat.min_self]

theorem toInt_eq_zero_iff (n : Nat) : toInt n = 0 ↔ n % 2 ^ 32 = 0 := by
  rw [toInt, Int.bmod_def]
  split <;> omega

/-- A file that is read right whatever follows it has nothing to read. -/
theorem eq_zero_of_answers (hnul : ∀ c ∈ file, c ≠ 0)
    -- compare an `a` after the block with nothing after it: the same words are read only if no byte is
    (h : ∀ after w, IsWord w → ∀ k, 1 ≤ k → k < 2 ^ 31 → Answers after file w k) :
    toInt file.length = 0 := by
  have hword : IsWord [97] := by decide
  have hlen := ((answers_iff hword (Nat.le_refl 1)).mp (h [] [97] hword 1 (Nat.le_refl 1) (by decide))).1
  have hanswer : ∀ after w, IsWord w → ∀ k, 1 ≤ k → k < 2 ^ 31 →
      answer (loaded after file) w k = answer (words isDelim file) w k :=
    fun after w hw k hk hint => ((answers_iff hw hk).mp (h after w hw k hk hint)).2.2
  have hsame : (loaded [97] file).map lower = (loaded [] file).map lower :=
    lower_eq_of_answers (fun _ => isWord_of_mem_loaded) (fun _ => isWord_of_mem_loaded)
      (length_loaded _ _) (length_loaded _ _)
      fun w hw k hk hint => (hanswer [97] w hw k hk hint).trans (hanswer [] w hw k hk hint).symm
  obtain ⟨block, hblock, hshort, hsize, hmem⟩ := loaded_block hlen
  have hblocknul : ∀ c ∈ block, c ≠ 0 := fun c hc => hnul c (hmem c hc)
  have hnothing : cString [] = [] := rfl
  rw [hblock, hblock, loaded_eq hblocknul hshort, loaded_eq hblocknul hshort, hnothing, List.append_nil,
    List.take_of_length_le (length_words_le block), lower_eq_iff_apart _ rfl] at hsame
  -- an empty block; the other two cases would need the `a` to be a delimiter
  rcases hsame with rfl | hdelims | ⟨c, _, _, hhead⟩
  · exact hsize.symm
  · exact absurd (hdelims 97 (by decide)) (by decide)
  · exact absurd (hhead 97 rfl) (by decide)

/-- **The word locator.** For a file of less than `2 ^ 31` bytes, `locate w k` answers as the file says for
every word `w` and every `k ≥ 1` that is an `int`, and for no other `k`, if and only if nothing that
follows the block is taken for a part of the file. It does so whatever follows the block only if there
is nothing to read. -/
theorem locate_iff (file : List UInt8) (hnul : ∀ c ∈ file, c ≠ 0) :
    (∀ after, file.length < 2 ^ 31 →
      ((∀ w, IsWord w → ∀ k, 1 ≤ k → (Answers after file w k ↔ k < 2 ^ 31)) ↔ Apart after file)) ∧
    ((∀ after w, IsWord w → ∀ k, 1 ≤ k → (Answers after file w k ↔ k < 2 ^ 31)) ↔
      file.length % 2 ^ 32 = 0 ∧ words isDelim file = []) := by
  refine ⟨fun after hlen => ?_, ?_⟩
  · have hnonneg : 0 ≤ toInt file.length := by
      rw [toInt_eq hlen]
      omega
    rw [← lower_eq_iff_apart (cString after) rfl, ← loaded_eq hnul hlen]
    -- all answers together say that the words are the same
    constructor
    · intro h
      have hwords := length_words_le file
      apply lower_eq_of_answers (fun _ => isWord_of_mem_loaded) (fun _ hw => isWord_of_mem hw hnul)
        (length_loaded _ _) (by omega)
      intro w hw k hk hint
      exact ((answers_iff hw hk).mp ((h w hw k hk).mpr hint)).2.2
    · intro heq w hw k hk
      rw [answers_iff hw hk]
      exact ⟨fun h => h.2.1, fun hint => ⟨hnonneg, hint, answer_congr heq⟩⟩
  · -- whatever follows
    constructor
    · intro h
      have hzero := eq_zero_of_answers hnul fun after w hw k hk hint => (h after w hw k hk).mpr hint
      refine ⟨(toInt_eq_zero_iff _).mp hzero, ?_⟩
      cases hwords : words isDelim file with
      | nil => rfl
      | cons w ws =>
          -- the first word is not found
          have hw : IsWord w := isWord_of_mem (by rw [hwords]; exact List.mem_cons_self) hnul
          have hanswer := ((answers_iff hw (Nat.le_refl 1)).mp ((h [] w hw 1 (Nat.le_refl 1)).mpr
            (by decide))).2.2
          have hnone : loaded [] file = [] := by
            rw [loaded, hzero]
            rfl
          rw [hnone, hwords, answer_eq_iff] at hanswer
          simp [positions] at hanswer
    · rintro ⟨hmod, hwords⟩ after w hw k hk
      have hzero := (toInt_eq_zero_iff _).mpr hmod
      have hnone : loaded after file = [] := by
        rw [loaded, hzero]
        rfl
      rw [answers_iff hw hk, hzero, hnone, hwords]
      simp

/-- The second `PIE` of a file that ends with a line break, which a NUL follows. -/
theorem locate_second :
    Answers [0] (bytes "Pie, a pie!\n") (bytes "PIE") 2 ∧
      answer (words isDelim (bytes "Pie, a pie!\n")) (bytes "PIE") 2 = .entry 3 := by
  refine ⟨?_, by decide⟩
  have hright := (locate_iff (bytes "Pie, a pie!\n") (by decide)).1 [0] (by decide)
  exact (hright.mpr (Or.inr (Or.inl (by decide))) (bytes "PIE") (by decide) 2 (by decide)).mpr (by decide)

/-- The file has the word `song`, and what follows the block is `pie` and a NUL: `pie` is found. -/
theorem locate_beyond :
    IsWord (bytes "pie") ∧ answer (words isDelim (bytes "song\n")) (bytes "pie") 1 = .noMatchingEntry ∧
      answer (loaded (bytes "pie" ++ [0]) (bytes "song\n")) (bytes "pie") 1 = .entry 2 ∧
      ¬ Answers (bytes "pie" ++ [0]) (bytes "song\n") (bytes "pie") 1 := by
  have hword : IsWord (bytes "pie") := by decide
  refine ⟨hword, by decide, by decide, ?_⟩
  rw [answers_iff hword (Nat.le_refl 1)]
  decide

end CS640.P1
