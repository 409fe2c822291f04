import CS640.Badger.Buffer.Pool
import CS640.Lib.Run
import Mathlib.Data.List.Count

/-!
# Calls of a buffer manager

The calls clients make on a `BufMgr`, and the pins they hold: a pin is taken by each `readPage` and
`allocPage` that returns, with the frame the returned pointer points to, and given back by each
`unPinPage` that returns.
-/

namespace CS640.Badger

open CS640.Lib Prog

inductive BufOp where
  | readPage (file pageNo : Nat)
  | allocPage (file : Nat)
  | unPinPage (file pageNo : Nat) (dirty : Bool)
  | flushFile (file : Nat)
  | disposePage (file pageNo : Nat)
  deriving DecidableEq, Repr

inductive BufReply where
  | page (pageNo frameNo : Nat)
  | done
  deriving DecidableEq, Repr

/-- The `File` object a call is made with. -/
def BufOp.file : BufOp → Nat
  | .readPage file _ => file
  | .allocPage file => file
  | .unPinPage file _ _ => file
  | .flushFile file => file
  | .disposePage file _ => file

/-- Two files, with a `File` object each. -/
def twoFiles : Nat → Option FileObject := fun a =>
  if a = 1 then some ⟨.page, "f"⟩ else if a = 2 then some ⟨.page, "g"⟩ else none

/-- The streams of new files. -/
def newStreams {D : Type} [PageData D] (sticky : Bool) : FileName → FStream D := fun _ =>
  PageFile.newStream sticky ⟨0, 0, 0, 0⟩ ⟨0, 0, 0, 0, 0, 0⟩

/-! ## Runs of a pool

What happens between the calls is not the pool's: `File` objects come and go, files are written to by others, and
clients write to the frames. All of that may change in one event, and at any time.
-/

/-- What can happen to a pool: a call, or a change of what is not its own, the objects, the files and what
is in the frames. -/
inductive PoolEvent (D : Type) where
  | call (op : BufOp)
  | outside (objects : Nat → Option FileObject) (streams : FileName → FStream D)
      (frames : Nat → Page D)

/-- What an event leaves, however a call ends, with the calls of the buffer manager given by `call`. -/
def outcome {D : Type} (call : BufOp → Prog Exn (Sys D) BufReply) (s : Sys D) : PoolEvent D → Sys D
  | .call op => (call op s).2
  | .outside objects streams frames => ⟨objects, streams, { s.mgr with bufPool := frames }⟩

/-! ## Calls after which the program goes on

A call returns, or throws an exception that its caller may catch. After anything else there is no next call, so
what holds after a call need only be said of these two ends.
-/

/-- The call returned or threw: the program goes on. -/
def Proceeds {α : Type} : Except (Exit Exn) α → Prop
  | .ok _ => True
  | .error (.throw _) => True
  | _ => False

instance {α : Type} (r : Except (Exit Exn) α) : Decidable (Proceeds r) :=
  match r with
  | .ok _ => isTrue trivial
  | .error (.throw _) => isTrue trivial
  | .error .abort => isFalse id
  | .error .diverge => isFalse id
  | .error .undefined => isFalse id

theorem Proceeds.cases {α : Type} {r : Except (Exit Exn) α} (h : Proceeds r) :
    (∃ a, r = .ok a) ∨ ∃ e, r = .error (.throw e) := by
  rcases r with (e | _ | _ | _) | a
  · -- an exception is the second end, `abort`, `diverge` and what is undefined are none
    exact Or.inr ⟨e, rfl⟩
  · exact h.elim
  · exact h.elim
  · exact h.elim
  · exact Or.inl ⟨a, rfl⟩

/-- **The rule of a call after which the program goes on**: it ends in one of the two ways that its
specification gives. -/
theorem Proceeds.of_wp {σ α : Type} {x : Prog Exn σ α} {s : σ} {Q : α → σ → Prop} {E : Exn → σ → Prop}
    {P : Except (Exit Exn) α → σ → Prop} (h : Proceeds (x s).1) (hspec : wp x Q (onThrow E) s)
    (hok : ∀ a t, x s = (.ok a, t) → Q a t → P (.ok a) t)
    (hthrow : ∀ e t, x s = (.error (.throw e), t) → E e t → P (.error (.throw e)) t) :
    P (x s).1 (x s).2 := by
  rcases hr : x s with ⟨r, t⟩
  rw [hr] at h
  rcases h.cases with ⟨a, rfl⟩ | ⟨e, rfl⟩
  · rw [wp_of_ok hr] at hspec
    exact hok a t hr hspec
  · rw [wp_of_error hr] at hspec
    exact hthrow e t hr hspec

/-! ## Pins

A client is known by the pins it holds. A call that throws takes none and gives none back, so what a call does to
the pins is read off its reply.
-/

/-- A pin that a client holds: the page, the frame its pointer points to, and whether the client has
changed the page since. -/
structure Pin where
  file : Nat
  pageNo : Nat
  frame : Nat
  changed : Bool
  deriving DecidableEq, Repr

/-- The pin is one on the page. -/
def Pin.On (file pageNo : Nat) (pin : Pin) : Bool :=
  decide (pin.file = file) && decide (pin.pageNo = pageNo)

/-- The number of pins held on a page. -/
def pinsOn (pins : List Pin) (file pageNo : Nat) : Nat := pins.countP (Pin.On file pageNo)

/-- The pins held after `op` has answered `r`. -/
def BufOp.notePins (op : BufOp) (r : Except (Exit Exn) BufReply) (pins : List Pin) : List Pin :=
  match op, r with
  | .readPage file _, .ok (.page pageNo frameNo) => ⟨file, pageNo, frameNo, false⟩ :: pins
  | .allocPage file, .ok (.page pageNo frameNo) => ⟨file, pageNo, frameNo, false⟩ :: pins
  | .unPinPage file pageNo _, .ok _ => pins.eraseP (Pin.On file pageNo)
  | _, _ => pins

@[simp] theorem Pin.on_iff {pin : Pin} {file pageNo : Nat} :
    pin.On file pageNo = true ↔ pin.file = file ∧ pin.pageNo = pageNo := by
  simp [Pin.On]

@[simp] theorem pinsOn_nil (file pageNo : Nat) : pinsOn [] file pageNo = 0 := rfl

theorem pinsOn_cons (pin : Pin) (pins : List Pin) (file pageNo : Nat) :
    pinsOn (pin :: pins) file pageNo =
      pinsOn pins file pageNo + if pin.file = file ∧ pin.pageNo = pageNo then 1 else 0 := by
  rw [pinsOn, List.countP_cons]
  simp only [Pin.on_iff]
  rfl

theorem pinsOn_pos_iff {pins : List Pin} {file pageNo : Nat} :
    0 < pinsOn pins file pageNo ↔ ∃ pin ∈ pins, pin.file = file ∧ pin.pageNo = pageNo := by
  rw [pinsOn, List.countP_pos_iff]
  simp only [Pin.on_iff]

/-- Giving back a pin on a page that is pinned. -/
theorem pinsOn_eraseP (pins : List Pin) (file pageNo file' pageNo' : Nat)
    (h : 0 < pinsOn pins file pageNo) :
    pinsOn (pins.eraseP (Pin.On file pageNo)) file' pageNo' =
      pinsOn pins file' pageNo' - if file' = file ∧ pageNo' = pageNo then 1 else 0 := by
  induction pins with
  | nil => simp at h
  | cons pin pins ih =>
      by_cases hpin : pin.file = file ∧ pin.pageNo = pageNo
      · rw [List.eraseP_cons_of_pos (Pin.on_iff.mpr hpin), pinsOn_cons]
        obtain ⟨rfl, rfl⟩ := hpin
        by_cases heq : file' = pin.file ∧ pageNo' = pin.pageNo
        · obtain ⟨rfl, rfl⟩ := heq
          simp
        · have hne : ¬ (pin.file = file' ∧ pin.pageNo = pageNo') := by
            rintro ⟨rfl, rfl⟩
            exact heq ⟨rfl, rfl⟩
          simp [heq, hne]
      · have hon : ¬ pin.On file pageNo = true := by simpa using hpin
        rw [List.eraseP_cons_of_neg hon, pinsOn_cons, pinsOn_cons]
        rw [pinsOn_cons, if_neg hpin, Nat.add_zero] at h
        rw [ih h]
        by_cases heq : file' = file ∧ pageNo' = pageNo
        · obtain ⟨rfl, rfl⟩ := heq
          simp [hpin]
        · simp [heq]

/-- The pins on one page do not count for another one. -/
theorem pinsOn_filter_of_ne {pins : List Pin} {f p file pageNo : Nat} (h : ¬ (f = file ∧ p = pageNo)) :
    pinsOn (pins.filter fun pin => !pin.On f p) file pageNo = pinsOn pins file pageNo := by
  rw [pinsOn, pinsOn, List.countP_filter]
  apply List.countP_congr
  intro pin _
  simp only [Bool.and_eq_true, Bool.not_eq_true', Pin.on_iff]
  constructor
  · exact fun hon => hon.1
  · intro hon
    refine ⟨hon, Bool.eq_false_iff.mpr fun hon' => h ?_⟩
    obtain ⟨hf, hp⟩ := Pin.on_iff.mp hon'
    exact ⟨hf.symm.trans hon.1, hp.symm.trans hon.2⟩

theorem pinsOn_erase {pins : List Pin} {pin : Pin} (h : pin ∈ pins) (file pageNo : Nat) :
    pinsOn (pins.erase pin) file pageNo =
      pinsOn pins file pageNo - if pin.file = file ∧ pin.pageNo = pageNo then 1 else 0 := by
  rw [pinsOn, List.countP_erase]
  simp [h, pinsOn]

end CS640.Badger
