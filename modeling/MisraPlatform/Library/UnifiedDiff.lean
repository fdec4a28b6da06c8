import Mathlib.Data.List.Basic
import Mathlib.Data.String.Basic

/-
This file is the unified diff format, how a patch is read and how it is applied to the lines of a file.
-/

namespace MisraPlatform.UnifiedDiff

/-! ### Lines -/

section Lines

variable {ends : Char → Bool}

def consHead (char : Char) : List (List Char) → List (List Char)
  | [] => [[char]]
  | line :: lines => (char :: line) :: lines

/-- An end closes a line, and text after the last end is a line too. -/
def linesBy (ends : Char → Bool) : List Char → List (List Char)
  | [] => []
  | char :: rest => if ends char then [] :: linesBy ends rest else consHead char (linesBy ends rest)

@[simp]
theorem linesBy_nil : linesBy ends [] = [] := rfl

theorem linesBy_end {char : Char} (stop : ends char = true) (rest : List Char) :
    linesBy ends (char :: rest) = [] :: linesBy ends rest :=
  if_pos stop

theorem linesBy_line {line : List Char} (clean : ∀ char ∈ line, ends char = false) {stop : Char}
    (closes : ends stop = true) (rest : List Char) :
    linesBy ends (line ++ stop :: rest) = line :: linesBy ends rest := by
  induction line with
  | nil => exact linesBy_end closes rest
  | cons first others ih =>
      rw [List.cons_append, linesBy, clean first List.mem_cons_self,
        ih fun char inside => clean char (List.mem_cons_of_mem _ inside)]
      rfl

theorem linesBy_last {line : List Char} (clean : ∀ char ∈ line, ends char = false) (some_char : line ≠ []) :
    linesBy ends line = [line] := by
  induction line with
  | nil => exact absurd rfl some_char
  | cons first others ih =>
      rw [linesBy, clean first List.mem_cons_self]
      cases others with
      | nil => rfl
      | cons second rest =>
          rw [ih (fun char inside => clean char (List.mem_cons_of_mem _ inside)) (by simp)]
          rfl

theorem linesBy_ne_nil {text : List Char} (some_char : text ≠ []) : linesBy ends text ≠ [] := by
  cases text with
  | nil => exact absurd rfl some_char
  | cons first rest =>
      rw [linesBy]
      split
      · exact List.cons_ne_nil _ _
      · cases linesBy ends rest <;> exact List.cons_ne_nil _ _

theorem some_line {char : Char} (inner : ends char = false) (rest : List Char) :
    ∃ line ∈ linesBy ends (char :: rest), line ≠ [] := by
  rw [linesBy, inner]
  cases linesBy ends rest with
  | nil => exact ⟨_, List.mem_cons_self, List.cons_ne_nil _ _⟩
  | cons head tail => exact ⟨_, List.mem_cons_self, List.cons_ne_nil _ _⟩

/-- No line has an end in it. -/
theorem clean_of_linesBy {text line : List Char} (listed : line ∈ linesBy ends text) :
    ∀ char ∈ line, ends char = false := by
  induction text generalizing line with
  | nil => cases listed
  | cons first rest ih =>
      rw [linesBy] at listed
      split at listed
      · cases List.mem_cons.mp listed with
        | inl empty => simp [empty]
        | inr later => exact ih later
      · rename_i inner
        cases lines : linesBy ends rest with
        | nil =>
            rw [lines] at listed
            rw [List.mem_singleton.mp listed]
            simpa using inner
        | cons head tail =>
            rw [lines] at listed
            cases List.mem_cons.mp listed with
            | inl here =>
                rw [here]
                intro char inside
                cases List.mem_cons.mp inside with
                | inl same => simpa [same] using inner
                | inr later => exact ih (lines ▸ List.mem_cons_self) char later
            | inr later => exact ih (lines ▸ List.mem_cons_of_mem _ later)

def nonblank (lines : List (List Char)) : List (List Char) := lines.filter (· ≠ [])

theorem nonblank_append (first second : List (List Char)) :
    nonblank (first ++ second) = nonblank first ++ nonblank second := List.filter_append ..

theorem consHead_append (char : Char) {first : List (List Char)} (some_line : first ≠ [])
    (second : List (List Char)) : consHead char (first ++ second) = consHead char first ++ second := by
  cases first with
  | nil => exact absurd rfl some_line
  | cons line others => rfl

theorem linesBy_append_end {stop : Char} (closes : ends stop = true) (before after : List Char) :
    linesBy ends (before ++ stop :: after) = linesBy ends (before ++ [stop]) ++ linesBy ends after := by
  induction before with
  | nil => simp [linesBy_end closes]
  | cons first rest ih =>
      rw [List.cons_append, linesBy, List.cons_append, linesBy, ih]
      split
      · rfl
      · exact consHead_append first (linesBy_ne_nil (by simp)) _

/-- An end behind a text closes its last line or makes a blank one. -/
theorem linesBy_close {stop : Char} (closes : ends stop = true) (text : List Char) :
    linesBy ends (text ++ [stop]) = linesBy ends text ∨ linesBy ends (text ++ [stop]) = linesBy ends text ++ [[]] := by
  induction text with
  | nil => exact .inr (linesBy_end closes [])
  | cons first rest ih =>
      rw [List.cons_append, linesBy, linesBy]
      split
      · exact ih.imp (congrArg _) (congrArg _)
      · cases ih with
        | inl same => exact .inl (congrArg _ same)
        | inr blank =>
            rw [blank]
            by_cases last : linesBy ends rest = []
            · rw [last]
              exact .inl rfl
            · exact .inr (consHead_append first last _)

theorem nonblank_append_end {stop : Char} (closes : ends stop = true) (before after : List Char) :
    nonblank (linesBy ends (before ++ stop :: after)) =
      nonblank (linesBy ends before) ++ nonblank (linesBy ends after) := by
  rw [linesBy_append_end closes, nonblank_append]
  cases linesBy_close closes before with
  | inl same => rw [same]
  | inr blank =>
      rw [blank, nonblank_append]
      simp [nonblank]

/-- A text is cut at its newlines first and then at its other ends. -/
theorem nonblank_linesBy (newline : ends '\n' = true) (text : List Char) :
    nonblank (linesBy ends text) = (linesBy (· = '\n') text).flatMap fun line => nonblank (linesBy ends line) := by
  induction size : text.length using Nat.strong_induction_on generalizing text with
  | _ count ih =>
      by_cases ended : '\n' ∈ text
      · obtain ⟨line, rest, rfl, clean⟩ := List.eq_append_cons_of_mem ended
        have inner : ∀ char ∈ line, decide (char = '\n') = false := fun char inside =>
          decide_eq_false fun same => clean (same ▸ inside)
        have shorter : rest.length < count := by
          rw [← size, List.length_append, List.length_cons]
          omega
        rw [nonblank_append_end newline, linesBy_line inner (by decide), List.flatMap_cons, ih _ shorter rest rfl]
      · have inner : ∀ char ∈ text, decide (char = '\n') = false := fun char inside =>
          decide_eq_false fun same => ended (same ▸ inside)
        by_cases empty : text = []
        · rw [empty]
          rfl
        · rw [linesBy_last inner empty, List.flatMap_singleton]

/-- The lines of a text in a patch end with a newline. -/
def textLines : List Char → List (List Char) := linesBy (· = '\n')

end Lines

/-! ### Hunks -/

section Hunks

variable {α : Type}

inductive Edit (α : Type)
  | keep (line : α)
  | delete (line : α)
  | insert (line : α)
  deriving DecidableEq, Repr

def Edit.line : Edit α → α
  | .keep line | .delete line | .insert line => line

def Edit.map {β : Type} (f : α → β) : Edit α → Edit β
  | .keep line => .keep (f line)
  | .delete line => .delete (f line)
  | .insert line => .insert (f line)

def Edit.old : Edit α → List α
  | .keep line | .delete line => [line]
  | .insert _ => []

def Edit.new : Edit α → List α
  | .keep line | .insert line => [line]
  | .delete _ => []

def oldLines (edits : List (Edit α)) : List α := edits.flatMap Edit.old

def newLines (edits : List (Edit α)) : List α := edits.flatMap Edit.new

/-- The positions count the lines before the hunk in the old and in the new file. -/
structure Hunk (α : Type) where
  oldPosition : Nat
  newPosition : Nat
  edits : List (Edit α)
  deriving DecidableEq, Repr

/-- These hunks, which keep no line, turn the rest of the old file into the rest of the new one. -/
inductive Turns : Nat → Nat → List α → List α → List (Hunk α) → Prop
  | same {i j rest} : Turns i j rest rest []
  | hunk {i j old new hunks} (kept : List α) (edits : List (Edit α)) : edits ≠ [] →
      (∀ line, .keep line ∉ edits) →
      Turns (i + kept.length + (oldLines edits).length) (j + kept.length + (newLines edits).length) old new hunks →
      Turns i j (kept ++ oldLines edits ++ old) (kept ++ newLines edits ++ new)
        (⟨i + kept.length, j + kept.length, edits⟩ :: hunks)

/-- The old lines of each hunk are found at the position that it names. -/
def applyHunks [DecidableEq α] (position : Nat) : List (Hunk α) → List α → Option (List α)
  | [], rest => some rest
  | hunk :: hunks, rest =>
      let kept := rest.take (hunk.oldPosition - position)
      let old := oldLines hunk.edits
      if position ≤ hunk.oldPosition ∧ kept ++ old <+: rest ∧ kept.length = hunk.oldPosition - position then
        (applyHunks (hunk.oldPosition + old.length) hunks (rest.drop (kept.length + old.length))).map
          fun later => kept ++ newLines hunk.edits ++ later
      else none

theorem Turns.line_mem {i j : Nat} {old new : List α} {hunks : List (Hunk α)} (turns : Turns i j old new hunks)
    {hunk : Hunk α} (listed : hunk ∈ hunks) {edit : Edit α} (inside : edit ∈ hunk.edits) :
    edit.line ∈ old ∨ edit.line ∈ new := by
  induction turns with
  | same => cases listed
  | hunk kept edits _ _ _ ih =>
      cases List.mem_cons.mp listed with
      | inl here =>
          subst here
          cases edit with
          | keep line | delete line =>
              have present : line ∈ oldLines edits := List.mem_flatMap.mpr ⟨_, inside, List.mem_singleton_self _⟩
              exact .inl (List.mem_append_left _ (List.mem_append_right _ present))
          | insert line =>
              have present : line ∈ newLines edits := List.mem_flatMap.mpr ⟨_, inside, List.mem_singleton_self _⟩
              exact .inr (List.mem_append_left _ (List.mem_append_right _ present))
      | inr later => exact (ih later).imp (List.mem_append_right _) (List.mem_append_right _)

theorem Turns.edits_ne_nil {i j : Nat} {old new : List α} {hunks : List (Hunk α)} (turns : Turns i j old new hunks)
    {hunk : Hunk α} (listed : hunk ∈ hunks) : hunk.edits ≠ [] := by
  induction turns with
  | same => cases listed
  | hunk kept edits some_edit _ _ ih =>
      cases List.mem_cons.mp listed with
      | inl here => exact here ▸ some_edit
      | inr later => exact ih later

theorem Turns.single {i j : Nat} {old new : List α} {hunk : Hunk α} (turns : Turns i j old new [hunk]) :
    (∀ line, .keep line ∉ hunk.edits) ∧ ∃ kept rest, hunk.oldPosition = i + kept.length ∧
      old = kept ++ oldLines hunk.edits ++ rest ∧ new = kept ++ newLines hunk.edits ++ rest := by
  cases turns with
  | hunk kept edits _ changes later =>
      cases later with
      | same => exact ⟨changes, kept, _, rfl, rfl, rfl⟩

theorem Turns.same_of_nil {i j : Nat} {old new : List α} (turns : Turns i j old new []) : old = new := by
  cases turns
  rfl

end Hunks

/-! ### Format -/

section Format

variable {α : Type}

/-- A range of one line names the line, an empty range the line before it. -/
def rangeText (position count : Nat) : List Char :=
  if count = 1 then Nat.toDigits 10 (position + 1)
  else if count = 0 then Nat.toDigits 10 position ++ [',', '0']
  else Nat.toDigits 10 (position + 1) ++ ',' :: Nat.toDigits 10 count

def hunkHeader (hunk : Hunk α) : List Char :=
  ['@', '@', ' ', '-'] ++ (rangeText hunk.oldPosition (oldLines hunk.edits).length ++
    ([' ', '+'] ++ (rangeText hunk.newPosition (newLines hunk.edits).length ++ [' ', '@', '@'])))

def Edit.sign : Edit α → Char
  | .keep _ => ' '
  | .delete _ => '-'
  | .insert _ => '+'

def readNat (text : List Char) : Option (Nat × List Char) :=
  if text.takeWhile Char.isDigit = [] then none
  else some (Nat.ofDigitChars 10 (text.takeWhile Char.isDigit) 0, text.dropWhile Char.isDigit)

def readCount : List Char → Option (Nat × List Char)
  | ',' :: rest => readNat rest
  | rest => some (1, rest)

def readRange (text : List Char) : Option ((Nat × Nat) × List Char) :=
  (readNat text).bind fun start =>
    (readCount start.2).map fun count =>
      ((if count.1 = 0 then start.1 else start.1 - 1, count.1), count.2)

def readMark (mark text : List Char) : Option (List Char) :=
  if mark <+: text then some (text.drop mark.length) else none

/-- A header has the position and the count of the old lines, then of the new ones. -/
def readHeader (line : List Char) : Option ((Nat × Nat) × (Nat × Nat)) :=
  (readMark ['@', '@', ' ', '-'] line).bind fun oldText =>
    (readRange oldText).bind fun old =>
      (readMark [' ', '+'] old.2).bind fun newText =>
        (readRange newText).bind fun new =>
          (readMark [' ', '@', '@'] new.2).map fun _ => (old.1, new.1)

def consEdit (edit : Edit α) (read : List (Edit α) × List (Hunk α)) : List (Edit α) × List (Hunk α) :=
  (edit :: read.1, read.2)

/-- A line of a hunk starts with its sign, and it is one of the lines that the hunk still has. -/
def readEdit (old new : Nat) : List Char → Option (Edit (List Char))
  | '-' :: text => if old = 0 then none else some (.delete text)
  | '+' :: text => if new = 0 then none else some (.insert text)
  | ' ' :: text => if old = 0 ∨ new = 0 then none else some (.keep text)
  | _ => none

/-- The counts are those of the lines that the current hunk still has. Only blank lines may follow the last hunk. -/
def readHunks (old new : Nat) : List (List Char) → Option (List (Edit (List Char)) × List (Hunk (List Char)))
  | [] => if old = 0 ∧ new = 0 then some ([], []) else none
  | line :: rest =>
      if old = 0 ∧ new = 0 then
        if ∀ other ∈ line :: rest, other = [] then some ([], [])
        else (readHeader line).bind fun header =>
          (readHunks header.1.2 header.2.2 rest).map fun later =>
            ([], ⟨header.1.1, header.2.1, later.1⟩ :: later.2)
      else (readEdit old new line).bind fun edit =>
        (readHunks (old - edit.old.length) (new - edit.new.length) rest).map (consEdit edit)

def isExtendedHeader (line : List Char) : Bool :=
  ['d', 'i', 'f', 'f', ' '] <+: line || ['i', 'n', 'd', 'e', 'x', ' '] <+: line

/-- The hunks follow the two lines that name the files, and a patch without lines has none. -/
def readPatch (lines : List (List Char)) : Option (List (Hunk (List Char))) :=
  match lines.dropWhile isExtendedHeader with
  | [] => some []
  | first :: second :: rest =>
      if ['-', '-', '-', ' '] <+: first ∧ ['+', '+', '+', ' '] <+: second then (readHunks 0 0 rest).map Prod.snd
      else none
  | _ => none

/-- A patch that is not well formed is refused. -/
def applyPatch (patch : List Char) (file : List (List Char)) : Option (List (List Char)) :=
  (readPatch (textLines patch)).bind fun hunks => applyHunks 0 hunks file

end Format

/-! ### Reading what is written -/

section Reading

variable {α : Type}

theorem readNat_toDigits (number : Nat) {rest : List Char} (stop : ∀ char ∈ rest.head?, char.isDigit = false) :
    readNat (Nat.toDigits 10 number ++ rest) = some (number, rest) := by
  have digits : ∀ char ∈ Nat.toDigits 10 number, char.isDigit = true :=
    fun char inside => Nat.isDigit_of_mem_toDigits (by omega) (by omega) inside
  have none_left : rest.takeWhile Char.isDigit = [] ∧ rest.dropWhile Char.isDigit = rest := by
    cases rest with
    | nil => exact ⟨rfl, rfl⟩
    | cons first others =>
        have sign := stop first rfl
        simp [sign]
  rw [readNat, List.takeWhile_append_of_pos digits, List.dropWhile_append_of_pos digits, none_left.1,
    none_left.2, List.append_nil, if_neg Nat.toDigits_ne_nil, Nat.ofDigitChars_ten_toDigits]

theorem readRange_rangeText (position count : Nat) {rest : List Char} (blank : rest.head? = some ' ') :
    readRange (rangeText position count ++ rest) = some ((position, count), rest) := by
  obtain ⟨later, rfl⟩ : ∃ later, rest = ' ' :: later := List.head?_eq_some_iff.mp blank
  rw [rangeText]
  split
  · rename_i single
    rw [readRange, readNat_toDigits _ (by simp)]
    simp [readCount, single]
  · split
    · rename_i empty
      rw [readRange, List.append_assoc, readNat_toDigits _ (by simp)]
      have zero : readNat ('0' :: ' ' :: later) = some (0, ' ' :: later) := readNat_toDigits 0 (by simp)
      simp [readCount, zero, empty]
    · rename_i some_line
      rw [readRange, List.append_assoc, readNat_toDigits _ (by simp)]
      simp only [Option.bind_some, List.cons_append, readCount]
      rw [readNat_toDigits _ (by simp)]
      simp [some_line]

theorem readMark_append (mark rest : List Char) : readMark mark (mark ++ rest) = some rest := by
  rw [readMark, if_pos (List.prefix_append mark rest), List.drop_left]

theorem readHeader_hunkHeader (hunk : Hunk α) : readHeader (hunkHeader hunk) =
    some ((hunk.oldPosition, (oldLines hunk.edits).length), (hunk.newPosition, (newLines hunk.edits).length)) := by
  rw [hunkHeader, readHeader, readMark_append, Option.bind_some, readRange_rangeText _ _ rfl, Option.bind_some,
    readMark_append, Option.bind_some, readRange_rangeText _ _ rfl]
  rfl

theorem readHunks_hunk (hunk : Hunk α) (rest : List (List Char)) :
    readHunks 0 0 (hunkHeader hunk :: rest) =
      (readHunks (oldLines hunk.edits).length (newLines hunk.edits).length rest).map fun later =>
        ([], ⟨hunk.oldPosition, hunk.newPosition, later.1⟩ :: later.2) := by
  have sign : ¬ ∀ other ∈ hunkHeader hunk :: rest, other = [] :=
    fun blank => absurd (blank _ List.mem_cons_self) (by simp [hunkHeader])
  rw [readHunks, if_pos ⟨rfl, rfl⟩, if_neg sign, readHeader_hunkHeader, Option.bind_some]

theorem readHunks_edit (edit : Edit α) (text : List Char) (old new : Nat) (rest : List (List Char)) :
    readHunks (edit.old.length + old) (edit.new.length + new) ((edit.sign :: text) :: rest) =
      (readHunks old new rest).map (consEdit (edit.map fun _ => text)) := by
  have counted : ¬(edit.old.length + old = 0 ∧ edit.new.length + new = 0) := by
    cases edit <;> simp [Edit.old, Edit.new]
  have read : readEdit (edit.old.length + old) (edit.new.length + new) (edit.sign :: text) =
      some (edit.map fun _ => text) := by
    cases edit <;> simp [readEdit, Edit.sign, Edit.map, Edit.old, Edit.new]
  have sameOld : (edit.map fun _ => text).old.length = edit.old.length := by cases edit <;> rfl
  have sameNew : (edit.map fun _ => text).new.length = edit.new.length := by cases edit <;> rfl
  rw [readHunks, if_neg counted, read, Option.bind_some, sameOld, sameNew, Nat.add_sub_cancel_left,
    Nat.add_sub_cancel_left]

/-- A blank line is refused while the hunk has lines left. -/
theorem readHunks_blank {old new : Nat} (left : 0 < old + new) (rest : List (List Char)) :
    readHunks old new ([] :: rest) = none := by
  rw [readHunks, if_neg (by omega)]
  rfl

theorem length_oldLines_cons (edit : Edit α) (edits : List (Edit α)) :
    (oldLines (edit :: edits)).length = edit.old.length + (oldLines edits).length := by
  simp [oldLines]

theorem length_newLines_cons (edit : Edit α) (edits : List (Edit α)) :
    (newLines (edit :: edits)).length = edit.new.length + (newLines edits).length := by
  simp [newLines]

theorem length_edits_pos {edits : List (Edit α)} (some_edit : edits ≠ []) :
    0 < (oldLines edits).length + (newLines edits).length := by
  cases edits with
  | nil => exact absurd rfl some_edit
  | cons edit others =>
      rw [length_oldLines_cons, length_newLines_cons]
      cases edit <;> simp [Edit.old, Edit.new]

/-- A hunk with a blank line between its lines is refused. -/
theorem readHunks_spaced (hunk : Hunk α) {first second : Edit α} {others : List (Edit α)}
    (more : hunk.edits = first :: second :: others) (text : List Char) (rest : List (List Char)) :
    readHunks 0 0 (hunkHeader hunk :: (first.sign :: text) :: [] :: rest) = none := by
  rw [readHunks_hunk, more, length_oldLines_cons, length_newLines_cons, readHunks_edit,
    readHunks_blank (length_edits_pos (List.cons_ne_nil second others))]
  rfl

theorem readHunks_single (hunk : Hunk α) {edit : Edit α} (single : hunk.edits = [edit]) (text : List Char)
    (rest : List (List Char)) : readHunks 0 0 (hunkHeader hunk :: (edit.sign :: text) :: rest) =
      (readHunks 0 0 rest).map fun later =>
        ([], ⟨hunk.oldPosition, hunk.newPosition, (edit.map fun _ => text) :: later.1⟩ :: later.2) := by
  rw [readHunks_hunk, single, length_oldLines_cons, length_newLines_cons, readHunks_edit, Option.map_map]
  rfl

/-- A blank line between two hunks is refused. -/
theorem readHunks_between {line : List Char} {rest : List (List Char)} (listed : line ∈ rest) (text : line ≠ []) :
    readHunks 0 0 ([] :: rest) = none := by
  have more : ¬ ∀ other ∈ [] :: rest, other = [] :=
    fun blank => text (blank line (List.mem_cons_of_mem _ listed))
  rw [readHunks, if_pos ⟨rfl, rfl⟩, if_neg more]
  rfl

/-- A hunk whose only line is missing is refused. -/
theorem readHunks_headerOnly (hunk : Hunk α) (some_edit : hunk.edits ≠ []) :
    readHunks 0 0 [hunkHeader hunk] = none := by
  have left := length_edits_pos some_edit
  rw [readHunks_hunk, readHunks, if_neg (by omega)]
  rfl

end Reading

/-! ### Hunks of one line -/

section Single

variable {α : Type}

theorem applyHunks_single [DecidableEq α] (position : Nat) (edits : List (Edit α)) (front rest : List α) :
    applyHunks 0 [⟨front.length, position, edits⟩] (front ++ rest) =
      if oldLines edits <+: rest then some (front ++ newLines edits ++ rest.drop (oldLines edits).length) else none := by
  simp only [applyHunks, Nat.sub_zero, List.take_left, Nat.zero_le, true_and, and_true, Option.map_some,
    List.prefix_append_right_inj]
  rw [← List.drop_drop, List.drop_left]

/-- A line before equal lines is a line after them. -/
theorem cons_eq_append_iff (line : α) (middle : List α) :
    line :: middle = middle ++ [line] ↔ ∀ other ∈ middle, other = line := by
  induction middle with
  | nil => simp
  | cons first others ih =>
      rw [List.cons_append, List.cons.injEq, List.forall_mem_cons]
      constructor
      · rintro ⟨rfl, later⟩
        exact ⟨rfl, ih.mp later⟩
      · rintro ⟨rfl, same⟩
        exact ⟨rfl, ih.mpr same⟩

/-- The hunk is meant for the lines behind the middle, and it names the position before it. -/
theorem applyHunks_shifted [DecidableEq α] (position : Nat) {edit : Edit α} (changes : ∀ line, edit ≠ .keep line)
    (front middle after : List α) :
    applyHunks 0 [⟨front.length, position, [edit]⟩] (front ++ (middle ++ edit.old ++ after)) =
        some (front ++ (middle ++ edit.new ++ after)) ↔
      ∀ other ∈ middle, other = edit.line := by
  rw [applyHunks_single]
  cases edit with
  | keep line => exact absurd rfl (changes line)
  | insert line =>
      rw [← cons_eq_append_iff]
      simp only [oldLines, newLines, List.flatMap_cons, List.flatMap_nil, Edit.old, Edit.new, Edit.line,
        List.append_nil, List.nil_prefix, if_true, List.length_nil, List.drop_zero, Option.some.injEq,
        List.append_assoc, List.append_cancel_left_eq]
      rw [← List.append_assoc, ← List.append_assoc, List.append_cancel_right_eq]
      rfl
  | delete line =>
      simp only [oldLines, newLines, List.flatMap_cons, List.flatMap_nil, Edit.old, Edit.new, Edit.line,
        List.append_nil, List.length_singleton]
      cases middle with
      | nil => simp
      | cons first others =>
          rw [List.forall_mem_cons]
          by_cases same : first = line
          · subst same
            rw [← cons_eq_append_iff, if_pos (by simp)]
            simp only [List.cons_append, List.drop_one, List.tail_cons, Option.some.injEq,
              List.append_cancel_left_eq, true_and]
            rw [← List.cons_append, List.append_cancel_right_eq]
            exact eq_comm
          · rw [if_neg (by simpa [eq_comm] using same)]
            simp [same]

end Single

end MisraPlatform.UnifiedDiff
