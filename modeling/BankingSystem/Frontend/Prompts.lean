import BankingSystem.Foundation.Stdin
import BankingSystem.Frontend.Menus

/-!
# Prompts

`read_validated_string` reads with `fgets` and validates what the buffer holds.  A line
that does not fit is neither rejected as a whole nor cleared: the rest of it is read by the
next call.
-/

namespace BankingSystem

open Foundation

/-! ## The validators -/

inductive Validator where
  | notEmpty
  | namePart
  | address
  | email
  | phone
  | credential
  deriving DecidableEq

def Validator.run : Validator → Bytes → Except Bytes Unit
  | .notEmpty => validateNotEmpty
  | .namePart => validateNamePart
  | .address => validateAddress
  | .email => validateEmail
  | .phone => validatePhone
  | .credential => validateCredential

def Validator.accept (validator : Validator) (text : Bytes) : Option Bytes :=
  match validator.run text with
  | .ok () => some text
  | .error _ => none

def readValidatedString (size : Nat) (validator : Validator) (buffer : Bytes) :
    Run Bytes Bytes :=
  promptLoop size validator.accept buffer

def lineText (line : Bytes) : Bytes := line.takeWhile (· ≠ 10)

/-- A C string has no NUL, so a line with one is not accepted as a whole. -/
def Validator.whole (validator : Validator) (line : Bytes) : Option Bytes :=
  if 0 ∈ lineText line then none else validator.accept (lineText line)

/-- The prompt returns the first line that is accepted and leaves what follows it. -/
def TakesLines (size : Nat) (validator : Validator) (buffer stdin : Bytes) : Prop :=
  ∀ text rest, (readValidatedString size validator buffer).Reaches stdin text rest ↔
    firstTaken validator.whole (lines stdin) = some (text, rest)

/--
The first line that is accepted fits into the buffer, and no piece of the lines before it
is accepted.
-/
def LinesFit (size : Nat) (validator : Validator) : List Bytes → Prop
  | [] => True
  | line :: rest =>
      if validator.whole line = none then
        (∀ piece ∈ pieces size line, validator.accept (stripNewline piece) = none) ∧
          LinesFit size validator rest
      else line.length < size

section Lines

variable {size : Nat} {validator : Validator} {buffer stdin line text value : Bytes}

theorem Validator.accept_nil (validator : Validator) : validator.accept [] = none := by
  cases validator <;> rfl

private theorem Validator.eq_of_accept (h : validator.accept text = some value) : value = text := by
  unfold Validator.accept at h
  split at h
  · exact (Option.some_inj.mp h).symm
  · cases h

private theorem Validator.eq_of_whole (h : validator.whole line = some value) :
    0 ∉ lineText line ∧ value = lineText line ∧ validator.accept (lineText line) = some value := by
  unfold Validator.whole at h
  split at h
  case isTrue => cases h
  case isFalse hzero => exact ⟨hzero, Validator.eq_of_accept h, h⟩

private theorem stripNewline_line (h : 0 ∉ lineText line) : stripNewline line = lineText line := by
  induction line with
  | nil => rfl
  | cons b line ih =>
      by_cases hnewline : b = 10
      · simp [stripNewline, lineText, hnewline]
      · have hcons : lineText (b :: line) = b :: lineText line := by simp [lineText, hnewline]
        rw [hcons, List.mem_cons, not_or] at h
        rw [hcons, ← ih h.2]
        simp [stripNewline, hnewline, Ne.symm h.1]

private theorem length_stripNewline_le (text : Bytes) :
    (stripNewline text).length ≤ (lineText text).length := by
  induction text with
  | nil => exact Nat.le_refl 0
  | cons b text ih =>
      by_cases hstop : b ≠ 0 ∧ b ≠ 10
      · simpa [stripNewline, lineText, hstop] using ih
      · simp [stripNewline, hstop]

private theorem lineText_append {start rest : Bytes} (h : 10 ∉ start) :
    lineText (start ++ rest) = start ++ lineText rest :=
  List.takeWhile_append_of_pos fun b hb => by
    rw [decide_eq_true_eq]
    rintro rfl
    exact h hb

private theorem taken_last {later : List Bytes}
    (h : firstTaken (fun piece => validator.accept (stripNewline piece))
      (pieces size line ++ later) = some (value, later.flatten)) :
    ∃ earlier piece, pieces size line = earlier ++ [piece] ∧
      validator.accept (stripNewline piece) = some value := by
  obtain ⟨earlier, piece, after, hsplit, -, haccept, hrest⟩ := firstTaken_eq_some_iff.mp h
  have hpiece : 0 < piece.length := by
    rw [List.length_pos_iff]
    rintro rfl
    rw [stripNewline_nil, Validator.accept_nil] at haccept
    cases haccept
  have hlength := congrArg List.length hrest
  rcases List.append_eq_append_iff.mp hsplit with ⟨more, rfl, hlater⟩ | ⟨more, hpieces, hlater⟩
  · rw [hlater] at hlength
    simp only [List.flatten_append, List.flatten_cons, List.length_append] at hlength
    omega
  · cases more with
    | nil =>
        rw [List.nil_append] at hlater
        rw [← hlater, List.flatten_cons, List.length_append] at hlength
        omega
    | cons first more =>
        rw [List.cons_append] at hlater
        obtain ⟨rfl, rfl⟩ := List.cons.inj hlater
        rw [List.flatten_append, List.length_append] at hlength
        have hmore : more = [] := by
          refine List.eq_nil_iff_forall_not_mem.mpr fun text htext => ?_
          have hmem : text ∈ pieces size line := by simp [hpieces, htext]
          have hne := (length_of_mem_pieces hmem).1
          have hempty : more.flatten = [] := List.length_eq_zero_iff.mp (by omega)
          exact hne (List.flatten_eq_nil_iff.mp hempty text htext)
        exact ⟨earlier, piece, by rw [hpieces, hmore], haccept⟩

private theorem taken_whole_iff (size : Nat) (hline : 10 ∉ line.dropLast)
    (hwhole : validator.whole line = some value) (later : List Bytes) :
    firstTaken (fun piece => validator.accept (stripNewline piece)) (pieces size line ++ later) =
      some (value, later.flatten) ↔ line.length < size := by
  obtain ⟨hzero, rfl, haccept⟩ := Validator.eq_of_whole hwhole
  constructor
  · intro h
    obtain ⟨earlier, piece, hpieces, htaken⟩ := taken_last h
    have hmem : piece ∈ pieces size line := by simp [hpieces]
    obtain ⟨hne, hlength⟩ := length_of_mem_pieces hmem
    have hpositive := List.length_pos_iff.mpr hne
    have hsize : 1 < size := by omega
    have hflatten := flatten_pieces hsize line
    rw [hpieces, List.flatten_append, List.flatten_singleton] at hflatten
    have hvalue := Validator.eq_of_accept htaken
    have hearlier : earlier.flatten = [] := by
      rw [← hflatten, List.dropLast_append_of_ne_nil hne] at hline
      have hnewline : 10 ∉ earlier.flatten := fun hmem => hline (List.mem_append_left _ hmem)
      rw [← hflatten, lineText_append hnewline] at hvalue
      have hle := length_stripNewline_le piece
      rw [← hvalue, List.length_append] at hle
      exact List.length_eq_zero_iff.mp (by omega)
    rw [hearlier, List.nil_append] at hflatten
    rwa [← hflatten]
  · intro hshort
    have hne : line ≠ [] := by
      rintro rfl
      rw [show lineText [] = [] from rfl, Validator.accept_nil] at haccept
      cases haccept
    rw [pieces_of_short hne hline hshort, List.singleton_append, firstTaken,
      stripNewline_line hzero, haccept]

private theorem taken_rejected_iff {more : Bytes} :
    firstTaken (fun piece => validator.accept (stripNewline piece))
        (pieces size line ++ pieces size more) = firstTaken validator.whole (lines more) ↔
      (∀ piece ∈ pieces size line, validator.accept (stripNewline piece) = none) ∧
        firstTaken (fun piece => validator.accept (stripNewline piece)) (pieces size more) =
          firstTaken validator.whole (lines more) := by
  constructor
  · intro h
    have hrejected : ∀ piece ∈ pieces size line,
        validator.accept (stripNewline piece) = none := by
      intro piece hpiece
      by_contra hsome
      obtain ⟨value, hvalue⟩ := Option.ne_none_iff_exists'.mp hsome
      have hexists : ∃ taken rest,
          firstTaken (fun piece => validator.accept (stripNewline piece)) (pieces size line) =
            some (taken, rest) := exists_firstTaken_iff.mpr ⟨piece, hpiece, value, hvalue⟩
      obtain ⟨taken, rest, htaken⟩ := hexists
      obtain ⟨hne, hshort⟩ := length_of_mem_pieces hpiece
      have hpositive := List.length_pos_iff.mpr hne
      rw [firstTaken_append_of_some htaken, flatten_pieces (by omega)] at h
      have hless := length_rest_lt h.symm fun _ => ne_nil_of_mem_lines
      rw [flatten_lines, List.length_append] at hless
      omega
    exact ⟨hrejected, by rwa [firstTaken_append hrejected] at h⟩
  · rintro ⟨hrejected, h⟩
    rw [firstTaken_append hrejected, h]

private theorem taken_lines_iff (size : Nat) (validator : Validator) (stdin : Bytes) :
    firstTaken (fun piece => validator.accept (stripNewline piece)) (pieces size stdin) =
      firstTaken validator.whole (lines stdin) ↔ LinesFit size validator (lines stdin) := by
  have hline : ∀ line more : Bytes, 10 ∉ line.dropLast →
      (firstTaken (fun piece => validator.accept (stripNewline piece)) (pieces size more) =
        firstTaken validator.whole (lines more) ↔ LinesFit size validator (lines more)) →
      (firstTaken (fun piece => validator.accept (stripNewline piece))
        (pieces size line ++ pieces size more) =
          firstTaken validator.whole (line :: lines more) ↔
        LinesFit size validator (line :: lines more)) := by
    intro line more hline ih
    rw [LinesFit, firstTaken]
    cases hwhole : validator.whole line with
    | none => rw [if_pos rfl, taken_rejected_iff, ih]
    | some value =>
        rw [if_neg (by simp), flatten_lines]
        by_cases hsize : 1 < size
        · have htaken := taken_whole_iff size hline hwhole (pieces size more)
          rwa [flatten_pieces hsize] at htaken
        · have hne : line.length ≠ 0 := by
            intro hempty
            rw [List.length_eq_zero_iff.mp hempty, Validator.whole,
              show lineText [] = [] from rfl, Validator.accept_nil] at hwhole
            cases hwhole
          have hpieces : ∀ stdin, pieces size stdin = [] := fun _ => if_pos (by omega)
          rw [hpieces, hpieces]
          exact iff_of_false (by simp [firstTaken]) (by omega)
  induction stdin using lines_induction with
  | nil => simp [lines, LinesFit, firstTaken]
  | last text hne htext =>
      have hnewline : 10 ∉ text.dropLast := fun h => htext (List.dropLast_subset _ h)
      have hlast := hline text [] hnewline (by simp [lines, LinesFit, firstTaken])
      rw [pieces_nil, List.append_nil] at hlast
      rw [lines_last hne htext]
      exact hlast
  | line text more htext ih =>
      rw [pieces_line htext, lines_line htext]
      exact hline (text ++ [10]) more (by simpa using htext) ih

end Lines

/--
A prompt takes whole lines exactly when the lines up to the one that it returns fit into
the buffer, as far as their pieces matter, and there is a line or the old contents of the
buffer are not accepted.
-/
theorem prompt_takes_lines_iff (size : Nat) (validator : Validator) (buffer stdin : Bytes) :
    TakesLines size validator buffer stdin ↔ LinesFit size validator (lines stdin) ∧
      (1 < size → stdin = [] → validator.accept (stripNewline buffer) = none) := by
  have hsame : TakesLines size validator buffer stdin ↔
      promptAnswer size validator.accept buffer stdin =
        firstTaken validator.whole (lines stdin) := by
    rw [Option.ext_iff]
    simp only [TakesLines, readValidatedString, reaches_prompt validator.accept_nil,
      Prod.forall]
  rw [hsame, promptAnswer]
  split
  case isTrue hend =>
    obtain ⟨hsize, rfl⟩ := hend
    simp [hsize, lines, firstTaken, LinesFit]
  case isFalse hmore =>
    rw [taken_lines_iff]
    exact (and_iff_left fun hsize hend => absurd ⟨hsize, hend⟩ hmore).symm

/-- A first name of 63 bytes, which leaves its newline to the prompt for the last name. -/
def overfullName : Bytes := List.replicate 63 65 ++ str "\nLee\n"

theorem newline_left_behind :
    ¬ ∀ (size : Nat) (validator : Validator) (buffer stdin : Bytes),
      TakesLines size validator buffer stdin := by
  intro h
  have hreached : (readValidatedString maxFnameLen .namePart []).Reaches overfullName
      (List.replicate 63 65) (str "\nLee\n") := ⟨1, by decide +kernel⟩
  have hwhole := (h maxFnameLen .namePart [] overfullName _ _).mp hreached
  revert hwhole
  decide +kernel

end BankingSystem
