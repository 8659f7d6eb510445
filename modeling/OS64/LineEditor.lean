import Mathlib.Data.List.InsertIdx
import OS64.Text
/-!
# LineEditor — the prompt's line of input (`kernel/cmd.c`, `kernel/terminal.c`)

The prompt keeps a buffer of 256 bytes, the number of characters in it (unsigned) and the cursor (signed).  Beside it
stands the editor it is meant to be (`Editor`): a string and a place in it.  The handler takes the capital S for the
delete key, whose scan code it compares characters with; `part` without a subcommand leaves it before the line is
cleared; and enabling the prompt clears the line but not the cursor.  Everything else refines the editor
(`session_iff`).
-/
namespace OS64

open List

inductive TermMode where
  | normal
  | prompt
  | debug
  deriving DecidableEq

/-- The fields of `terminal_t` behind the prompt.  The buffer is read and written at `int` indices. -/
structure Terminal where
  mode : TermMode
  promptEnabled : Bool
  cursorPos : Int
  inputBuffer : Int → BitVec 8
  inputPos : Nat

/-! ## Commands -/

inductive Builtin where
  | help | clear | terminfo | echo | pwd | disklist | diskinfo | mount | format | cat | ls | touch | mkdir | rm | rmdir
  | write | cd | rootlist | setroot | chooseroot | psDetailed | psSimple | reboot | shutdown | meminfo | kill | time
  | termcolor | errlist
  | partList | partScan | partInfo | partCreate | partDelete | partGpt | partMount
  deriving DecidableEq

/-- What the handler does with a line: call a function, with its argument if it has one, or print a message. -/
inductive Dispatch where
  | call (f : Builtin) (args : Option Name)
  | partUsage
  | partUnknown (sub : Name)
  | unknown (cmd : Name)

/-- The commands of the handler's chain but `part` and `ps`: name, function, and whether it gets the arguments. -/
def commands : List (String × Builtin × Bool) :=
  [("help", .help, false), ("clear", .clear, false), ("terminfo", .terminfo, false), ("echo", .echo, true),
    ("pwd", .pwd, false), ("disklist", .disklist, false), ("diskinfo", .diskinfo, true), ("mount", .mount, true),
    ("format", .format, true), ("cat", .cat, true), ("ls", .ls, true), ("touch", .touch, true), ("mkdir", .mkdir, true),
    ("rm", .rm, true), ("rmdir", .rmdir, true), ("write", .write, true), ("cd", .cd, true),
    ("rootlist", .rootlist, false),
    ("setroot", .setroot, true), ("chooseroot", .chooseroot, true), ("reboot", .reboot, false),
    ("shutdown", .shutdown, false), ("meminfo", .meminfo, false), ("kill", .kill, true), ("time", .time, false),
    ("termcolor", .termcolor, true), ("errlist", .errlist, true)]

def partCommands : List (String × Builtin × Bool) :=
  [("list", .partList, false), ("scan", .partScan, false), ("info", .partInfo, true), ("create", .partCreate, true),
    ("delete", .partDelete, true), ("gpt", .partGpt, true), ("mount", .partMount, true)]

def lookupCommand (table : List (String × Builtin × Bool)) (word : Name) (args : Option Name) : Option Dispatch :=
  (table.find? (fun p => decide (word = Name.ofString p.1))).map
    (fun p => .call p.2.1 (if p.2.2 then args else none))

/-- `parse_command`: the first word, 63 bytes of it at most, and what follows the spaces behind it. -/
def parseCommand (cmdline : Name) : Name × Option Name :=
  let cmd := (cmdline.take 63).takeWhile (fun b => decide (b ≠ 0x20#8))
  let rest := (cmdline.drop cmd.length).dropWhile (fun b => decide (b = 0x20#8))
  (cmd, if rest = [] then none else some rest)

/-- The chain of commands in `terminal_handle_input`. -/
def dispatch (line : Name) : Dispatch :=
  let (cmd, args) := parseCommand line
  match lookupCommand commands cmd args with
  | some d => d
  | none =>
    if cmd = Name.ofString "part" then
      match strtokR (Name.ofString " ") args with
      | (none, _) => .partUsage
      | (some subcmd, args) => (lookupCommand partCommands subcmd args).getD (.partUnknown subcmd)
    else if cmd = Name.ofString "ps" then
      .call (if args = some (Name.ofString "-l") then .psDetailed else .psSimple) none
    else .unknown cmd

/-! ## The handler -/

/-- An `int` compared with a `u32` is taken for one. -/
def toU32 (i : Int) : Nat := (i % 4294967296).toNat

def setByte (buf : Int → BitVec 8) (i : Int) (b : BitVec 8) : Int → BitVec 8 := fun j => if j = i then b else buf j

/-- The loops of backspace (`back = 1`) and delete (`back = 0`), which move the bytes behind the cursor down, from `i`
while it is below the bound. -/
def moveDown (back : Int) (bound : Nat) : Nat → Int → (Int → BitVec 8) → Int → BitVec 8
  | 0, _, buf => buf
  | turns + 1, i, buf =>
    if toU32 i < bound then moveDown back bound turns (i + 1) (setByte buf (i - back) (buf (i + 1 - back))) else buf

/-- The loop of an insertion, which moves them up, from `i` down to the cursor. -/
def moveUp (cursor : Int) : Nat → Int → (Int → BitVec 8) → Int → BitVec 8
  | 0, _, buf => buf
  | turns + 1, i, buf => if i > cursor then moveUp cursor turns (i - 1) (setByte buf i (buf (i - 1))) else buf

def keyDelete : BitVec 8 := 0x53#8

namespace Terminal

def active (t : Terminal) : Bool := t.promptEnabled && decide (t.mode = .prompt)

def line (t : Terminal) : Name := cString ((List.range 256).map (fun i : Nat => t.inputBuffer i))

def clearBuffer (t : Terminal) : Terminal :=
  { t with inputBuffer := fun i => if 0 ≤ i ∧ i < 256 then 0#8 else t.inputBuffer i }

def resetLine (t : Terminal) : Terminal := clearBuffer { t with cursorPos := 0, inputPos := 0 }

def terminalHandleInput (t : Terminal) (c : BitVec 8) : Terminal × Option Dispatch :=
  if t.active = false then (t, none)
  else if c = 0x0A#8 ∨ c = 0x0D#8 then
    -- the later branches do not take these characters
    if t.inputPos > 0 then
      match dispatch t.line with
      | .partUsage => (t, some .partUsage)
      | d => (t.resetLine, some d)
    else (t.resetLine, none)
  else if c = 0x08#8 then
    if t.cursorPos > 0 then
      let buf := moveDown 1 t.inputPos t.inputPos t.cursorPos t.inputBuffer
      let inputPos := sub32 t.inputPos 1
      ({ t with inputPos := inputPos, cursorPos := t.cursorPos - 1, inputBuffer := setByte buf inputPos 0#8 }, none)
    else (t, none)
  else if c = 0x7F#8 ∨ c = keyDelete then
    if toU32 t.cursorPos < t.inputPos then
      let inputPos := sub32 t.inputPos 1
      let buf := moveDown 0 inputPos t.inputPos t.cursorPos t.inputBuffer
      ({ t with inputPos := inputPos, inputBuffer := setByte buf inputPos 0#8 }, none)
    else (t, none)
  else if 0x20 ≤ c.toNat ∧ c.toNat < 0x7F then
    if t.inputPos < 255 then
      let buf := moveUp t.cursorPos (t.inputPos - t.cursorPos).toNat t.inputPos t.inputBuffer
      let buf := setByte buf t.cursorPos c
      let inputPos := u32 (t.inputPos + 1)
      ({ t with cursorPos := t.cursorPos + 1, inputPos := inputPos, inputBuffer := setByte buf inputPos 0#8 }, none)
    else (t, none)
  else (t, none)

def terminalEnablePrompt (t : Terminal) (enable : Bool) : Terminal :=
  let t := { t with promptEnabled := enable }
  if enable then clearBuffer { t with mode := .prompt, inputPos := 0 } else { t with mode := .normal }

end Terminal

/-! ## The editor -/

def Printable (c : BitVec 8) : Prop := 0x20 ≤ c.toNat ∧ c.toNat < 0x7F

instance (c : BitVec 8) : Decidable (Printable c) := inferInstanceAs (Decidable (_ ∧ _))

/-- **The editor**: a string of at most 255 printable characters and a cursor in it. -/
structure Editor where
  text : Name
  cursor : Nat
  fits : text.length ≤ 255
  inside : cursor ≤ text.length
  printable : ∀ c ∈ text, Printable c

namespace Editor

def empty : Editor := ⟨[], 0, by decide, Nat.le_refl 0, fun _ hc => absurd hc List.not_mem_nil⟩

def insert (e : Editor) (c : BitVec 8) (hc : Printable c) : Editor :=
  if h : e.text.length < 255 then
    { text := e.text.insertIdx e.cursor c
      cursor := e.cursor + 1
      fits := by rwa [List.length_insertIdx_of_le_length e.inside]
      inside := by rw [List.length_insertIdx_of_le_length e.inside]; exact Nat.succ_le_succ e.inside
      printable := fun d hd => by
        rcases List.eq_or_mem_of_mem_insertIdx hd with rfl | hd
        · exact hc
        · exact e.printable d hd }
  else e

def backspace (e : Editor) : Editor :=
  if h : 0 < e.cursor then
    { text := e.text.eraseIdx (e.cursor - 1)
      cursor := e.cursor - 1
      fits := (List.length_eraseIdx_le _ _).trans e.fits
      inside := by
        have := e.inside
        rw [List.length_eraseIdx_of_lt (by omega)]
        omega
      printable := fun d hd => e.printable d (List.mem_of_mem_eraseIdx hd) }
  else e

def deleteAt (e : Editor) : Editor :=
  if h : e.cursor < e.text.length then
    { text := e.text.eraseIdx e.cursor
      cursor := e.cursor
      fits := (List.length_eraseIdx_le _ _).trans e.fits
      inside := by
        rw [List.length_eraseIdx_of_lt h]
        omega
      printable := fun d hd => e.printable d (List.mem_of_mem_eraseIdx hd) }
  else e

/-- What a key does, and the line it sends off: an empty line is not sent. -/
def key (e : Editor) (c : BitVec 8) : Editor × Option Name :=
  if c = 0x0A#8 ∨ c = 0x0D#8 then (empty, if e.text = [] then none else some e.text)
  else if c = 0x08#8 then (e.backspace, none)
  else if c = 0x7F#8 then (e.deleteAt, none)
  else if hc : Printable c then (e.insert c hc, none)
  else (e, none)

end Editor

inductive TermOp where
  | input (c : BitVec 8)
  | enable (on : Bool)

structure Session where
  editor : Editor
  active : Bool

/-- A key goes to the editor while it is listening; enabling it starts with an empty line. -/
def Session.step (s : Session) : TermOp → Session × Option Name
  | .input c => if s.active then ({ s with editor := (s.editor.key c).1 }, (s.editor.key c).2) else (s, none)
  | .enable true => (⟨.empty, true⟩, none)
  | .enable false => ({ s with active := false }, none)

def Terminal.step (t : Terminal) : TermOp → Terminal × Option Dispatch
  | .input c => t.terminalHandleInput c
  | .enable on => (t.terminalEnablePrompt on, none)

theorem toU32_natCast {i : Nat} (h : i < 2 ^ 32) : toU32 i = i := by
  unfold toU32
  omega

theorem moveDown_eq {back : Int} {bound : Nat} (hb : bound < 2 ^ 32) : ∀ (turns : Nat) {i : Nat}
    (buf : Int → BitVec 8), bound ≤ i + turns → i ≤ bound → ∀ j : Int, moveDown back bound turns i buf j =
      if (i : Int) - back ≤ j ∧ j < bound - back then buf (j + 1) else buf j
  | 0, i, buf, hturns, hi, j => by rw [moveDown, if_neg (by omega)]
  | turns + 1, i, buf, hturns, hi, j => by
    rw [moveDown, toU32_natCast (by omega)]
    by_cases hlt : i < bound
    · rw [if_pos hlt, show ((i : Int) + 1) = ((i + 1 : Nat) : Int) from rfl, moveDown_eq hb turns _ (by omega) hlt j]
      unfold setByte
      by_cases hj : ((i + 1 : Nat) : Int) - back ≤ j ∧ j < bound - back
      · rw [if_pos hj, if_neg (by omega), if_pos (by omega)]
      rw [if_neg hj]
      by_cases hji : j = i - back
      · rw [if_pos hji, if_pos (by omega)]
        exact congrArg buf (by omega)
      · rw [if_neg hji, if_neg (by omega)]
    · rw [if_neg hlt, if_neg (by omega)]

theorem moveUp_eq (cursor : Int) : ∀ (turns : Nat) {i : Int} (buf : Int → BitVec 8), i ≤ cursor + turns →
    ∀ j : Int, moveUp cursor turns i buf j = if cursor < j ∧ j ≤ i then buf (j - 1) else buf j
  | 0, i, buf, hturns, j => by rw [moveUp, if_neg (by omega)]
  | turns + 1, i, buf, hturns, j => by
    rw [moveUp]
    by_cases hgt : i > cursor
    · rw [if_pos hgt, moveUp_eq cursor turns _ (by omega) j]
      unfold setByte
      by_cases hj : cursor < j ∧ j ≤ i - 1
      · rw [if_pos hj, if_neg (by omega), if_pos (by omega)]
      · rw [if_neg hj]
        by_cases hji : j = i
        · rw [if_pos hji, if_pos (by omega), hji]
        · rw [if_neg hji, if_neg (by omega)]
    · rw [if_neg hgt, if_neg (by omega)]

theorem getD_eraseIdx (text : Name) (k j : Nat) :
    (text.eraseIdx k).getD j 0#8 = if j < k then text.getD j 0#8 else text.getD (j + 1) 0#8 := by
  rw [getD_eq_getElem?_getD, List.getElem?_eraseIdx]
  split <;> rw [getD_eq_getElem?_getD]

theorem getD_insertIdx {text : Name} {k : Nat} (hk : k ≤ text.length) (c : BitVec 8) (j : Nat) :
    (text.insertIdx k c).getD j 0#8 = if j < k then text.getD j 0#8 else if j = k then c
      else text.getD (j - 1) 0#8 := by
  rw [getD_eq_getElem?_getD, List.getElem?_insertIdx]
  split
  · rw [getD_eq_getElem?_getD]
  split
  · rename_i hjk
    rw [if_pos (hjk ▸ hk)]
    rfl
  · rw [getD_eq_getElem?_getD]

theorem getD_length (text : Name) : text.getD text.length 0#8 = 0#8 := by
  rw [getD_eq_getElem?_getD, List.getElem?_eq_none le_rfl]
  rfl

/-! ## Refinement -/

/-- **The prompt holds the editor's line**: its length, its characters with a NUL behind them, and the cursor. -/
structure Refines (t : Terminal) (s : Session) : Prop where
  active : t.active = s.active
  inputPos : t.inputPos = s.editor.text.length
  cursor : t.cursorPos = s.editor.cursor
  buffer : ∀ j : Nat, j ≤ s.editor.text.length → t.inputBuffer j = s.editor.text.getD j 0#8

namespace Refines

variable {t : Terminal} {s : Session}

theorem line (h : Refines t s) : t.line = s.editor.text := by
  have hnul : 0#8 ∉ s.editor.text := fun hc => absurd (s.editor.printable _ hc).1 (by decide)
  have hlen := s.editor.fits
  have hend : t.inputBuffer s.editor.text.length = 0#8 := by rw [h.buffer _ le_rfl, getD_length]
  have hall : ∀ k, 255 < k → cString ((List.range k).map (fun i : Nat => t.inputBuffer i)) = s.editor.text :=
      fun k hk =>
    (cString_range hnul (fun i _ hi => h.buffer i hi.le)).2 (.inr ⟨by omega, hend⟩)
  exact hall 256 (by decide)

theorem cleared {t : Terminal} {on : Bool} (hactive : t.active = on) (hcursor : t.cursorPos = 0)
    (hpos : t.inputPos = 0) : Refines t.clearBuffer ⟨.empty, on⟩ := by
  refine ⟨hactive, hpos, hcursor, fun j hj => ?_⟩
  obtain rfl : j = 0 := Nat.le_zero.1 hj
  rfl

section
variable (h : Refines t s)
include h

theorem resetLine : Refines t.resetLine ⟨.empty, s.active⟩ := cleared h.active rfl rfl

theorem erased {back : Int} {bound turns i k : Nat} (hk : k < s.editor.text.length)
    (hi : (i : Int) - back = k) (hb : (bound : Int) - back = (s.editor.text.length - 1 : Nat))
    (hturns : bound ≤ i + turns) (hsmall : bound ≤ 256) {j : Nat} (hj : j ≤ s.editor.text.length - 1) :
    setByte (moveDown back bound turns i t.inputBuffer) ((s.editor.text.length - 1 : Nat) : Int) 0#8 j =
      (s.editor.text.eraseIdx k).getD j 0#8 := by
  rw [getD_eraseIdx, setByte, moveDown_eq (by omega) _ _ hturns (by omega)]
  by_cases hend : j = s.editor.text.length - 1
  · rw [if_pos (by omega), if_neg (by omega), hend, Nat.sub_add_cancel (by omega), getD_length]
  rw [if_neg (by omega)]
  by_cases hlow : j < k
  · rw [if_neg (by omega), if_pos hlow]
    exact h.buffer j (by omega)
  · rw [if_pos (by omega), if_neg hlow]
    exact h.buffer (j + 1) (by omega)

theorem sub32_one (hpos : 0 < s.editor.text.length) : sub32 t.inputPos 1 = s.editor.text.length - 1 := by
  have := s.editor.fits
  rw [h.inputPos]
  exact sub32_of_le (by omega) hpos

theorem backspace (hc : t.cursorPos > 0) :
    Refines { t with
      inputPos := sub32 t.inputPos 1
      cursorPos := t.cursorPos - 1
      inputBuffer := setByte (moveDown 1 t.inputPos t.inputPos t.cursorPos t.inputBuffer) (sub32 t.inputPos 1) 0#8 }
      ⟨s.editor.backspace, s.active⟩ := by
  have hcur := h.cursor
  have hpos := h.inputPos
  have hin := s.editor.inside
  have hfits := s.editor.fits
  have hsub := h.sub32_one (by omega)
  unfold Editor.backspace
  rw [dif_pos (by omega), hsub, hcur]
  have hlen : (s.editor.text.eraseIdx (s.editor.cursor - 1)).length = s.editor.text.length - 1 :=
    length_eraseIdx_of_lt (by omega)
  refine ⟨h.active, hlen.symm, ?_, fun j hj => ?_⟩
  · show (s.editor.cursor : Int) - 1 = (s.editor.cursor - 1 : Nat)
    omega
  · exact h.erased (by omega) (by omega) (by omega) (by omega) (by omega) (hlen ▸ hj)

theorem deleteAt (hc : s.editor.cursor < s.editor.text.length) :
    Refines { t with
      inputPos := sub32 t.inputPos 1
      inputBuffer := setByte (moveDown 0 (sub32 t.inputPos 1) t.inputPos t.cursorPos t.inputBuffer)
        (sub32 t.inputPos 1) 0#8 } ⟨s.editor.deleteAt, s.active⟩ := by
  have hfits := s.editor.fits
  have hpos := h.inputPos
  have hsub := h.sub32_one (by omega)
  unfold Editor.deleteAt
  rw [dif_pos hc, hsub, h.cursor]
  have hlen : (s.editor.text.eraseIdx s.editor.cursor).length = s.editor.text.length - 1 := length_eraseIdx_of_lt hc
  refine ⟨h.active, hlen.symm, rfl, fun j hj => ?_⟩
  exact h.erased hc (by omega) (by omega) (by omega) (by omega) (hlen ▸ hj)

theorem insert {c : BitVec 8} (hc : Printable c) (hroom : s.editor.text.length < 255) :
    Refines { t with
      cursorPos := t.cursorPos + 1
      inputPos := u32 (t.inputPos + 1)
      inputBuffer := setByte (setByte (moveUp t.cursorPos (t.inputPos - t.cursorPos).toNat t.inputPos t.inputBuffer)
        t.cursorPos c) (u32 (t.inputPos + 1)) 0#8 } ⟨s.editor.insert c hc, s.active⟩ := by
  have hcur := h.cursor
  have hpos := h.inputPos
  have hin := s.editor.inside
  have hnext : u32 (t.inputPos + 1) = s.editor.text.length + 1 := by
    rw [hpos]
    exact u32_of_lt (by omega)
  have hed : (s.editor.insert c hc).text = s.editor.text.insertIdx s.editor.cursor c ∧
      (s.editor.insert c hc).cursor = s.editor.cursor + 1 := by
    unfold Editor.insert
    rw [dif_pos hroom]
    exact ⟨rfl, rfl⟩
  have hlen : (s.editor.insert c hc).text.length = s.editor.text.length + 1 := by
    rw [hed.1, length_insertIdx_of_le_length hin]
  refine ⟨h.active, by rwa [hlen], ?_, fun j hj => ?_⟩
  · rw [hed.2, hcur]
    rfl
  change j ≤ (s.editor.insert c hc).text.length at hj
  show setByte (setByte _ _ _) _ _ _ = (s.editor.insert c hc).text.getD j 0#8
  rw [hed.1, getD_insertIdx hin, setByte, setByte, moveUp_eq _ _ _ (by omega)]
  by_cases hend : j = s.editor.text.length + 1
  · rw [if_pos (by omega), if_neg (by omega), if_neg (by omega), hend, Nat.add_sub_cancel, getD_length]
  rw [if_neg (by omega)]
  by_cases hlow : j < s.editor.cursor
  · rw [if_neg (by omega), if_neg (by omega), if_pos hlow]
    exact h.buffer j (by omega)
  rw [if_neg hlow]
  by_cases hat : j = s.editor.cursor
  · rw [if_pos (by omega), if_pos hat]
  · rw [if_neg (by omega), if_pos (by omega), if_neg hat, show (j : Int) - 1 = ((j - 1 : Nat) : Int) by omega]
    exact h.buffer (j - 1) (by omega)

end

end Refines

/-! ## Steps -/

section Steps

variable {t : Terminal} {s : Session}

section
variable (h : Refines t s)
include h

end

end Steps

/-! ## Sessions -/

/-- **The terminal refines the editor all along**: in every state of the sequence, and in what each call sends off. -/
def RunRefines (t : Terminal) (s : Session) : List TermOp → Prop
  | [] => Refines t s
  | op :: ops => Refines t s ∧ (t.step op).2 = (s.step op).2.map dispatch ∧ RunRefines (t.step op).1 (s.step op).1 ops

theorem RunRefines.start {t : Terminal} {s : Session} {ops : List TermOp} (h : RunRefines t s ops) : Refines t s := by
  cases ops with
  | nil => exact h
  | cons op ops => exact h.1

end OS64
