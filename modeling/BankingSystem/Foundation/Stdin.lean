import BankingSystem.Foundation.CString
import BankingSystem.Foundation.Loop

/-!
# Reading lines into a buffer

`fgets` takes a line from the input, or as much of it as the buffer holds.  A prompt reads
until a function accepts what was read; when the input has ended it sees the old contents
of the buffer again.
-/

namespace BankingSystem.Foundation

/-! ## Lines and pieces -/

/-- The loop of `fgets`: up to a newline, the end of the room or the end of the input. -/
def readUpTo : Nat → Bytes → Bytes × Bytes
  | 0, stdin => ([], stdin)
  | _ + 1, [] => ([], [])
  | room + 1, b :: stdin =>
      if b = 10 then ([b], stdin)
      else (b :: (readUpTo room stdin).1, (readUpTo room stdin).2)

/-- `fgets(buffer, size, stdin)`: what it stores, `none` for `NULL`, and the input left. -/
def fgets (size : Nat) (stdin : Bytes) : Option Bytes × Bytes :=
  if 1 < size ∧ stdin = [] then (none, [])
  else (some (readUpTo (size - 1) stdin).1, (readUpTo (size - 1) stdin).2)

/-- `while ((c = getchar()) != '\n' && c != EOF);` -/
def skipLine : Bytes → Bytes
  | [] => []
  | b :: stdin => if b = 10 then stdin else skipLine stdin

def consFirst (b : UInt8) : List Bytes → List Bytes
  | [] => [[b]]
  | first :: rest => (b :: first) :: rest

/-- The lines of an input, each with its newline; the last one may have none. -/
def lines : Bytes → List Bytes
  | [] => []
  | b :: stdin => if b = 10 then [b] :: lines stdin else consFirst b (lines stdin)

/-- The pieces of at most `whole` bytes; the first has `room` bytes left. -/
def piecesFrom (whole : Nat) : Nat → Bytes → List Bytes
  | _, [] => []
  | room, b :: stdin =>
      if b = 10 ∨ room ≤ 1 then [b] :: piecesFrom whole whole stdin
      else consFirst b (piecesFrom whole (room - 1) stdin)

/-- What successive calls of `fgets` store, until the input has ended. -/
def pieces (size : Nat) (stdin : Bytes) : List Bytes :=
  if size ≤ 1 then [] else piecesFrom (size - 1) (size - 1) stdin

section Pieces

variable {size whole room : Nat} {stdin : Bytes}

@[simp] theorem pieces_nil : pieces size [] = [] := by
  unfold pieces
  split <;> rfl

theorem piecesFrom_cons (hroom : 0 < room) (hne : stdin ≠ []) :
    piecesFrom whole room stdin =
      (readUpTo room stdin).1 :: piecesFrom whole whole (readUpTo room stdin).2 := by
  induction stdin generalizing room with
  | nil => exact absurd rfl hne
  | cons b stdin ih =>
      obtain ⟨room, rfl⟩ := Nat.exists_eq_add_of_lt hroom
      rw [Nat.zero_add, readUpTo, piecesFrom]
      by_cases hnewline : b = 10
      · rw [if_pos (.inl hnewline), if_pos hnewline]
      · rw [if_neg hnewline]
        cases room with
        | zero => simp [readUpTo]
        | succ room =>
            rw [if_neg (by simp [hnewline]), Nat.add_sub_cancel]
            cases stdin with
            | nil => simp [readUpTo, piecesFrom, consFirst]
            | cons b' stdin =>
                rw [ih (Nat.succ_pos room) (List.cons_ne_nil _ _)]
                rfl

theorem pieces_cons (hsize : 1 < size) (hne : stdin ≠ []) :
    pieces size stdin = (readUpTo (size - 1) stdin).1 ::
      pieces size (readUpTo (size - 1) stdin).2 := by
  rw [pieces, if_neg (by omega), piecesFrom_cons (by omega) hne, pieces, if_neg (by omega)]

theorem readUpTo_append (room : Nat) (stdin : Bytes) :
    (readUpTo room stdin).1 ++ (readUpTo room stdin).2 = stdin := by
  induction stdin generalizing room with
  | nil => cases room <;> rfl
  | cons b stdin ih =>
      cases room with
      | zero => rfl
      | succ room =>
          rw [readUpTo]
          split
          · rfl
          · rw [List.cons_append, ih]

theorem length_readUpTo_lt (hroom : 0 < room) (hne : stdin ≠ []) :
    (readUpTo room stdin).2.length < stdin.length := by
  have happend := congrArg List.length (readUpTo_append room stdin)
  rw [List.length_append] at happend
  have hnonempty : (readUpTo room stdin).1.length ≠ 0 := by
    cases stdin with
    | nil => exact absurd rfl hne
    | cons b stdin =>
        obtain ⟨room, rfl⟩ := Nat.exists_eq_add_of_lt hroom
        rw [Nat.zero_add, readUpTo]
        split <;> simp
  omega

end Pieces

/-! ## Prompts -/

/-- The text in a buffer after `buffer[strcspn(buffer, "\n")] = 0`. -/
def stripNewline (buffer : Bytes) : Bytes := buffer.takeWhile fun b => b ≠ 0 ∧ b ≠ 10

@[simp] theorem stripNewline_nil : stripNewline [] = [] := rfl

theorem stripNewline_stripNewline (buffer : Bytes) :
    stripNewline (stripNewline buffer) = stripNewline buffer :=
  List.takeWhile_idem

variable {α : Type} {accept : Bytes → Option α} {size : Nat} {buffer stdin rest : Bytes}
  {value : α}

def promptLoop (size : Nat) (accept : Bytes → Option α) : Bytes → Run Bytes α :=
  Run.loop fun buffer => .ofOption fun stdin =>
    let text := stripNewline ((fgets size stdin).1.getD buffer)
    match accept text with
    | some value => some (.inr value, (fgets size stdin).2)
    | none => some (.inl text, (fgets size stdin).2)

/-- The value of the first text that is accepted, and what stands behind it. -/
def firstTaken (accept : Bytes → Option α) : List Bytes → Option (α × Bytes)
  | [] => none
  | text :: rest =>
      match accept text with
      | some value => some (value, rest.flatten)
      | none => firstTaken accept rest

def promptAnswer (size : Nat) (accept : Bytes → Option α) (buffer stdin : Bytes) :
    Option (α × Bytes) :=
  if 1 < size ∧ stdin = [] then (accept (stripNewline buffer)).map fun value => (value, [])
  else firstTaken (fun piece => accept (stripNewline piece)) (pieces size stdin)

theorem flatten_pieces (hsize : 1 < size) (stdin : Bytes) :
    (pieces size stdin).flatten = stdin := by
  induction hlength : stdin.length using Nat.strongRecOn generalizing stdin with
  | _ n ih =>
      subst hlength
      by_cases hne : stdin = []
      · simp [hne]
      · have hroom : 0 < size - 1 := by omega
        have hless := length_readUpTo_lt hroom hne
        rw [pieces_cons hsize hne, List.flatten_cons, ih _ hless _ rfl, readUpTo_append]

/-- A buffer that is read again at the end of the input is not accepted then either. -/
theorem not_ends_of_rejected (hempty : accept [] = none)
    (h : size ≤ 1 ∨ stdin = [] ∧ accept (stripNewline buffer) = none) :
    ¬ (promptLoop size accept buffer).Ends stdin := by
  refine Run.loop_not_ends (I := fun buffer stdin =>
    size ≤ 1 ∨ stdin = [] ∧ accept (stripNewline buffer) = none) ?_ h
  intro buffer stdin result stdin' hinv hbody
  rw [Run.reaches_ofOption] at hbody
  rcases hinv with hsize | ⟨rfl, hrejected⟩
  · have hread : fgets size stdin = (some [], stdin) := by
      rw [fgets, if_neg (by omega), Nat.sub_eq_zero_of_le hsize]
      rfl
    simp only [hread, Option.getD_some, stripNewline_nil, hempty] at hbody
    cases hbody
    exact ⟨[], rfl, .inl hsize⟩
  · by_cases hsize : 1 < size
    · have hread : fgets size [] = (none, []) := if_pos ⟨hsize, rfl⟩
      simp only [hread, Option.getD_none, hrejected] at hbody
      cases hbody
      exact ⟨_, rfl, .inr ⟨rfl, by rw [stripNewline_stripNewline, hrejected]⟩⟩
    · have hread : fgets size [] = (some [], []) := by
        rw [fgets, if_neg (by omega), Nat.sub_eq_zero_of_le (by omega)]
        rfl
      simp only [hread, Option.getD_some, stripNewline_nil, hempty] at hbody
      cases hbody
      exact ⟨[], rfl, .inl (by omega)⟩

theorem reaches_promptLoop_step {read : Option Bytes} {left : Bytes}
    (hread : fgets size stdin = (read, left)) :
    (promptLoop size accept buffer).Reaches stdin value rest ↔
      accept (stripNewline (read.getD buffer)) = some value ∧ left = rest ∨
      accept (stripNewline (read.getD buffer)) = none ∧
        (promptLoop size accept (stripNewline (read.getD buffer))).Reaches left value rest := by
  unfold promptLoop
  rw [Run.reaches_loop]
  simp only [Run.reaches_ofOption, hread]
  cases haccept : accept (stripNewline (read.getD buffer)) with
  | none => simp
  | some value' => simp

/-- A prompt takes the first piece of the input that is accepted. -/
theorem reaches_prompt (hempty : accept [] = none) :
    (promptLoop size accept buffer).Reaches stdin value rest ↔
      promptAnswer size accept buffer stdin = some (value, rest) := by
  by_cases hsize : 1 < size
  · induction hlength : stdin.length using Nat.strongRecOn generalizing stdin buffer with
    | _ n ih =>
        subst hlength
        by_cases hne : stdin = []
        · subst hne
          rw [reaches_promptLoop_step (if_pos ⟨hsize, rfl⟩), promptAnswer, if_pos ⟨hsize, rfl⟩,
            Option.getD_none]
          cases haccept : accept (stripNewline buffer) with
          | none =>
              refine iff_of_false ?_ (by simp)
              rintro (⟨hsome, -⟩ | ⟨-, hreached⟩)
              · cases hsome
              · refine not_ends_of_rejected hempty (.inr ⟨rfl, ?_⟩) ⟨value, rest, hreached⟩
                rw [stripNewline_stripNewline, haccept]
          | some value' => simp
        · rw [reaches_promptLoop_step (if_neg fun h => hne h.2), promptAnswer,
            if_neg fun h => hne h.2, pieces_cons hsize hne, firstTaken, Option.getD_some]
          have hroom : 0 < size - 1 := by omega
          have hless := length_readUpTo_lt hroom hne
          cases haccept : accept (stripNewline (readUpTo (size - 1) stdin).1) with
          | some value' => simp [flatten_pieces hsize]
          | none =>
              simp only [reduceCtorEq, false_and, true_and, false_or]
              rw [ih _ hless rfl, promptAnswer]
              split
              case isTrue hend => simp [stripNewline_stripNewline, haccept, hend.2, firstTaken]
              case isFalse => exact Iff.rfl
  · refine iff_of_false (fun h => ?_) ?_
    · exact not_ends_of_rejected hempty (.inl (by omega)) ⟨value, rest, h⟩
    · rw [promptAnswer, if_neg fun h => hsize h.1, pieces, if_pos (by omega)]
      simp [firstTaken]

theorem exists_firstTaken_iff {texts : List Bytes} :
    (∃ value rest, firstTaken accept texts = some (value, rest)) ↔
      ∃ text ∈ texts, ∃ value, accept text = some value := by
  induction texts with
  | nil => simp [firstTaken]
  | cons text texts ih =>
      rw [firstTaken]
      cases haccept : accept text with
      | none => simpa [haccept] using ih
      | some value => simp [haccept]

def Answered (size : Nat) (accept : Bytes → Option α) (buffer stdin : Bytes) : Prop :=
  (∃ piece ∈ pieces size stdin, ∃ value, accept (stripNewline piece) = some value) ∨
    1 < size ∧ stdin = [] ∧ ∃ value, accept (stripNewline buffer) = some value

theorem exists_promptAnswer_iff :
    (∃ value rest, promptAnswer size accept buffer stdin = some (value, rest)) ↔
      Answered size accept buffer stdin := by
  unfold promptAnswer Answered
  split
  case isTrue hend =>
    obtain ⟨hsize, rfl⟩ := hend
    simp [hsize]
  case isFalse hmore =>
    rw [exists_firstTaken_iff]
    exact (or_iff_left fun h => hmore ⟨h.1, h.2.1⟩).symm

theorem ends_prompt_iff (hempty : accept [] = none) :
    (promptLoop size accept buffer).Ends stdin ↔ Answered size accept buffer stdin := by
  rw [← exists_promptAnswer_iff]
  simp only [Run.Ends, reaches_prompt hempty]

/-! ## The pieces of a line -/

section Lines

variable {text more : Bytes} {whole room : Nat}

/-- An input is empty, a line without newline, or a line and more. -/
theorem lines_induction {P : Bytes → Prop} (nil : P [])
    (last : ∀ text, text ≠ [] → 10 ∉ text → P text)
    (line : ∀ text more, 10 ∉ text → P more → P (text ++ 10 :: more)) (stdin : Bytes) :
    P stdin := by
  induction hlength : stdin.length using Nat.strongRecOn generalizing stdin with
  | _ n ih =>
      subst hlength
      by_cases hnewline : 10 ∈ stdin
      · obtain ⟨text, more, rfl, hfirst⟩ := List.eq_append_cons_of_mem hnewline
        exact line text more hfirst (ih more.length (by simp; omega) more rfl)
      · by_cases hne : stdin = []
        · exact hne ▸ nil
        · exact last stdin hne hnewline

theorem lines_last (hne : text ≠ []) (htext : 10 ∉ text) : lines text = [text] := by
  induction text with
  | nil => exact absurd rfl hne
  | cons b text ih =>
      rw [List.mem_cons, not_or] at htext
      rw [lines, if_neg (Ne.symm htext.1)]
      cases text with
      | nil => rfl
      | cons b' text => rw [ih (List.cons_ne_nil _ _) htext.2, consFirst]

theorem lines_line (htext : 10 ∉ text) :
    lines (text ++ 10 :: more) = (text ++ [10]) :: lines more := by
  induction text with
  | nil => rfl
  | cons b text ih =>
      rw [List.mem_cons, not_or] at htext
      rw [List.cons_append, lines, if_neg (Ne.symm htext.1), ih htext.2, consFirst]
      rfl

theorem flatten_lines (stdin : Bytes) : (lines stdin).flatten = stdin := by
  induction stdin using lines_induction with
  | nil => rfl
  | last text hne htext => rw [lines_last hne htext, List.flatten_singleton]
  | line text more htext ih =>
      rw [lines_line htext, List.flatten_cons, ih, List.append_assoc, List.singleton_append]

theorem ne_nil_of_mem_lines {line stdin : Bytes} (h : line ∈ lines stdin) : line ≠ [] := by
  induction stdin using lines_induction with
  | nil => cases h
  | last text hne htext =>
      rw [lines_last hne htext, List.mem_singleton] at h
      exact h ▸ hne
  | line text more htext ih =>
      rw [lines_line htext] at h
      rcases List.mem_cons.mp h with rfl | hmore
      · simp
      · exact ih hmore

theorem consFirst_ne_nil (b : UInt8) (texts : List Bytes) : consFirst b texts ≠ [] := by
  cases texts <;> exact List.cons_ne_nil _ _

theorem piecesFrom_ne_nil (b : UInt8) (text : Bytes) : piecesFrom whole room (b :: text) ≠ [] := by
  rw [piecesFrom]
  split
  · exact List.cons_ne_nil _ _
  · exact consFirst_ne_nil b _

theorem consFirst_append {texts : List Bytes} (h : texts ≠ []) (b : UInt8) (rest : List Bytes) :
    consFirst b (texts ++ rest) = consFirst b texts ++ rest := by
  cases texts with
  | nil => exact absurd rfl h
  | cons first texts => rfl

theorem piecesFrom_line (htext : 10 ∉ text) :
    piecesFrom whole room (text ++ 10 :: more) =
      piecesFrom whole room (text ++ [10]) ++ piecesFrom whole whole more := by
  induction text generalizing room with
  | nil => simp [piecesFrom]
  | cons b text ih =>
      rw [List.mem_cons, not_or] at htext
      rw [List.cons_append, List.cons_append, piecesFrom, piecesFrom]
      split
      · rw [ih htext.2, List.cons_append]
      · rw [ih htext.2]
        refine consFirst_append ?_ b _
        cases text with
        | nil => exact piecesFrom_ne_nil 10 []
        | cons b' text => exact piecesFrom_ne_nil b' _

theorem pieces_line (htext : 10 ∉ text) :
    pieces size (text ++ 10 :: more) = pieces size (text ++ [10]) ++ pieces size more := by
  unfold pieces
  split
  · rfl
  · exact piecesFrom_line htext

theorem readUpTo_line {line : Bytes} (hline : 10 ∉ line.dropLast) (hroom : line.length ≤ room) :
    readUpTo room line = (line, []) := by
  induction line generalizing room with
  | nil => cases room <;> rfl
  | cons b line ih =>
      cases room with
      | zero => cases hroom
      | succ room =>
          rw [readUpTo]
          cases line with
          | nil => cases room <;> simp [readUpTo]
          | cons b' line =>
              rw [List.dropLast_cons_cons, List.mem_cons, not_or] at hline
              rw [if_neg (Ne.symm hline.1), ih hline.2 (Nat.le_of_succ_le_succ hroom)]

theorem pieces_of_short {line : Bytes} (hne : line ≠ []) (hline : 10 ∉ line.dropLast)
    (hshort : line.length < size) : pieces size line = [line] := by
  have hpositive := List.length_pos_iff.mpr hne
  rw [pieces_cons (by omega) hne, readUpTo_line hline (by omega), pieces_nil]

theorem length_readUpTo_le (room : Nat) (stdin : Bytes) :
    (readUpTo room stdin).1.length ≤ room := by
  induction stdin generalizing room with
  | nil => cases room <;> simp [readUpTo]
  | cons b stdin ih =>
      cases room with
      | zero => exact Nat.le_refl 0
      | succ room =>
          rw [readUpTo]
          split
          · simp
          · exact Nat.succ_le_succ (ih room)

theorem length_of_mem_pieces {piece : Bytes} (h : piece ∈ pieces size more) :
    piece ≠ [] ∧ piece.length < size := by
  by_cases hsize : 1 < size
  · induction hlength : more.length using Nat.strongRecOn generalizing more with
    | _ n ih =>
        subst hlength
        by_cases hne : more = []
        · rw [hne, pieces_nil] at h
          cases h
        · have hroom : 0 < size - 1 := by omega
          have hless := length_readUpTo_lt hroom hne
          rw [pieces_cons hsize hne] at h
          rcases List.mem_cons.mp h with rfl | hrest
          · have hle := length_readUpTo_le (size - 1) more
            have happend := congrArg List.length (readUpTo_append (size - 1) more)
            rw [List.length_append] at happend
            refine ⟨List.length_pos_iff.mp ?_, ?_⟩ <;> omega
          · exact ih _ hless hrest rfl
  · rw [pieces, if_pos (by omega)] at h
    cases h

end Lines

/-! ## The first text that is accepted -/

section FirstTaken

variable {texts later : List Bytes} {text : Bytes}

theorem firstTaken_append (h : ∀ text ∈ texts, accept text = none) (later : List Bytes) :
    firstTaken accept (texts ++ later) = firstTaken accept later := by
  induction texts with
  | nil => rfl
  | cons text texts ih =>
      rw [List.cons_append, firstTaken, h text List.mem_cons_self]
      exact ih fun text htext => h text (List.mem_cons_of_mem _ htext)

theorem firstTaken_eq_some_iff : firstTaken accept texts = some (value, rest) ↔
    ∃ earlier text later, texts = earlier ++ text :: later ∧
      (∀ text ∈ earlier, accept text = none) ∧ accept text = some value ∧ rest = later.flatten := by
  constructor
  · intro h
    induction texts with
    | nil => cases h
    | cons text texts ih =>
        rw [firstTaken] at h
        cases haccept : accept text with
        | some value' =>
            rw [haccept] at h
            cases h
            exact ⟨[], text, texts, rfl, by simp, haccept, rfl⟩
        | none =>
            rw [haccept] at h
            obtain ⟨earlier, taken, later, rfl, hearlier, htaken, hrest⟩ := ih h
            refine ⟨text :: earlier, taken, later, rfl, ?_, htaken, hrest⟩
            exact List.forall_mem_cons.mpr ⟨haccept, hearlier⟩
  · rintro ⟨earlier, text, later, rfl, hearlier, htext, rfl⟩
    rw [firstTaken_append hearlier, firstTaken, htext]

theorem firstTaken_append_of_some (h : firstTaken accept texts = some (value, rest))
    (later : List Bytes) :
    firstTaken accept (texts ++ later) = some (value, rest ++ later.flatten) := by
  obtain ⟨earlier, text, behind, rfl, hearlier, htext, rfl⟩ := firstTaken_eq_some_iff.mp h
  rw [List.append_assoc, firstTaken_append hearlier, List.cons_append, firstTaken, htext,
    List.flatten_append]

theorem length_rest_lt (h : firstTaken accept texts = some (value, rest))
    (hne : ∀ text ∈ texts, text ≠ []) : rest.length < texts.flatten.length := by
  obtain ⟨earlier, text, later, rfl, -, -, rfl⟩ := firstTaken_eq_some_iff.mp h
  have hpositive := List.length_pos_iff.mpr (hne text (by simp))
  rw [List.flatten_append, List.flatten_cons, List.length_append, List.length_append]
  omega

end FirstTaken

end BankingSystem.Foundation
