import BankingSystem.Frontend.Terminal

/-!
# Loops at the end of the input

No loop of the client looks at the end of its input.  A prompt ends when the input answers
it, and a menu when the input leaves it, which it then does within as many turns as the
input has bytes.
-/

namespace BankingSystem

open Foundation

variable {M : Type} [Amount M] [Strtod M]

/-! ## Prompts -/

private theorem validAmount_nil : validAmount (M := M) [] = none := if_pos rfl

omit [Amount M] [Strtod M] in
private theorem reaches_buffered {α : Type} {size : Nat} {accept : Bytes → Option α}
    (hempty : accept [] = none) {s s' : Console} {value : α} :
    (Run.ofOption (fun s : Console => some (s.arrays 0, s.nextArray)) >>= fun buffer =>
      (promptLoop size accept buffer).onPart Console.stdin Console.setStdin).Reaches s value s' ↔
    ((promptAnswer size accept (s.arrays 0) s.stdin).map fun answer =>
      (answer.1, s.nextArray.setStdin answer.2)) = some (value, s') := by
  rw [Run.reaches_bind, Option.map_eq_some_iff]
  constructor
  · rintro ⟨buffer, s₁, hbuffer, hanswer⟩
    cases Run.reaches_ofOption.mp hbuffer
    obtain ⟨rest, hreached, rfl⟩ := Run.reaches_onPart.mp hanswer
    exact ⟨(value, rest), (reaches_prompt hempty).mp hreached, rfl⟩
  · rintro ⟨⟨value', rest⟩, hanswer, hs'⟩
    cases hs'
    refine ⟨_, _, Run.reaches_ofOption.mpr rfl, Run.reaches_onPart.mpr ⟨rest, ?_, rfl⟩⟩
    exact (reaches_prompt hempty).mpr hanswer

private theorem reaches_interp (cmd : Terminal.Cmd) (s : Console) (answer : Terminal.Ans M cmd)
    (s' : Console) :
    (Console.interp (M := M) cmd).Reaches s answer s' ↔
      Console.exec cmd s = some (answer, s') := by
  cases cmd with
  | readString size validator => exact reaches_buffered validator.accept_nil
  | readDouble => exact reaches_buffered validAmount_nil
  | _ => exact Run.reaches_ofOption

/-! ## What is left of the input -/

section Left

variable {size : Nat} {stdin : Bytes} {s s' : Console}

private theorem length_skipLine_le (stdin : Bytes) : (skipLine stdin).length ≤ stdin.length := by
  induction stdin with
  | nil => exact Nat.le_refl 0
  | cons b stdin ih =>
      rw [skipLine]
      split
      · exact Nat.le_succ _
      · exact Nat.le_succ_of_le ih

private theorem length_skipLine_lt (hne : stdin ≠ []) : (skipLine stdin).length < stdin.length := by
  cases stdin with
  | nil => exact absurd rfl hne
  | cons b stdin =>
      rw [skipLine]
      split
      · exact Nat.lt_succ_self _
      · exact Nat.lt_succ_of_le (length_skipLine_le stdin)

private theorem length_scanSign_le (text : Bytes) : (scanSign text).2.length ≤ text.length := by
  unfold scanSign
  split <;> simp

private theorem length_scanfInteger_le (stdin : Bytes) :
    (scanfInteger stdin).2.length ≤ stdin.length := by
  have hstart : (scanSign (skipSpace stdin)).2.length ≤ stdin.length :=
    Nat.le_trans (length_scanSign_le _) (List.dropWhile_suffix isSpace).length_le
  unfold scanfInteger
  cases hscan : scanInteger stdin with
  | none => exact hstart
  | some scanned =>
      obtain ⟨negative, n, rest⟩ := scanned
      simp only [scanInteger] at hscan
      split at hscan
      · cases hscan
      · cases hscan
        exact Nat.le_trans (List.dropWhile_suffix isDigit).length_le hstart

private theorem length_promptAnswer_le {α : Type} {accept : Bytes → Option α} {buffer : Bytes}
    {answer : α × Bytes} (h : promptAnswer size accept buffer stdin = some answer) :
    answer.2.length ≤ stdin.length := by
  obtain ⟨value, rest⟩ := answer
  unfold promptAnswer at h
  split at h
  case isTrue hend =>
    obtain ⟨value', -, hr⟩ := Option.map_eq_some_iff.mp h
    cases hr
    exact Nat.zero_le _
  case isFalse hmore =>
    by_cases hsize : 1 < size
    · have hless := length_rest_lt h fun _ hpiece => (length_of_mem_pieces hpiece).1
      rw [flatten_pieces hsize] at hless
      exact Nat.le_of_lt hless
    · rw [pieces, if_pos (by omega)] at h
      cases h

private theorem length_exec_le (cmd : Terminal.Cmd) (s : Console) (answer : Terminal.Ans M cmd)
    (s' : Console) (h : Console.exec cmd s = some (answer, s')) :
    s'.stdin.length ≤ s.stdin.length := by
  cases cmd with
  | readString size validator =>
      obtain ⟨answer', hanswer, hr⟩ := Option.map_eq_some_iff.mp h
      cases hr
      exact length_promptAnswer_le hanswer
  | readDouble =>
      obtain ⟨answer', hanswer, hr⟩ := Option.map_eq_some_iff.mp h
      cases hr
      exact length_promptAnswer_le hanswer
  | scanInt | scanUnsigned =>
      cases h
      exact length_scanfInteger_le s.stdin
  | clearStdin =>
      cases h
      exact length_skipLine_le s.stdin
  | uninitialised | exchange =>
      cases h
      exact Nat.le_refl _

private theorem length_after_choice_lt {α : Type} {f : Option Int → Prog (Terminal M) α} {value : α}
    (hne : s.stdin ≠ []) (h : (Terminal.readChoice >>= f).run? Console.exec s = some (value, s')) :
    s'.stdin.length < s.stdin.length := by
  rw [Prog.run?_bind] at h
  obtain ⟨⟨choice, s₁⟩, hchoice, hrest⟩ := Option.bind_eq_some_iff.mp h
  have hs₁ : s₁.stdin = skipLine (scanfInteger s.stdin).2 := by
    cases hchoice
    rfl
  have hle := Prog.size_run?_le (fun s : Console => s.stdin.length) length_exec_le
    (f choice) hrest
  have hscan := length_scanfInteger_le s.stdin
  have hpositive := List.length_pos_iff.mpr hne
  refine Nat.lt_of_le_of_lt hle ?_
  rw [hs₁]
  by_cases hleft : (scanfInteger s.stdin).2 = []
  · rw [hleft]
    exact hpositive
  · exact Nat.lt_of_lt_of_le (length_skipLine_lt hleft) hscan

private theorem choice_at_end (hend : s.stdin = []) :
    (Terminal.readChoice (M := M)).run? Console.exec s = some (none, s.setStdin []) := by
  have hscan : scanfInteger s.stdin = (none, []) := by rw [hend]; rfl
  change some ((scanfInteger s.stdin).1.map _, (s.setStdin (scanfInteger s.stdin).2).setStdin
    (skipLine (scanfInteger s.stdin).2)) = _
  rw [hscan]
  rfl

/-- A turn that only goes on at the end of the input does so for ever. -/
private theorem turns_not_end {α : Type} {turn : Prog (Terminal M) (Unit ⊕ α)}
    (hturn : ∀ s : Console, s.stdin = [] →
      turn.run? Console.exec s = some (.inl (), s.setStdin [])) (hend : s.stdin = []) :
    ¬ (Run.loop (fun _ => turn.toRun Console.interp) ()).Ends s := by
  refine Run.loop_not_ends (I := fun _ s => s.stdin = []) ?_ hend
  intro _ s result s' hend hbody
  rw [Prog.reaches_toRun reaches_interp, hturn s hend] at hbody
  cases hbody
  exact ⟨(), rfl, rfl⟩

private theorem reaches_turns {α : Type} {turn : Prog (Terminal M) (Unit ⊕ α)} {value : α} :
    (Run.loop (fun _ => turn.toRun Console.interp) ()).Reaches s value s' ↔
      turn.run? Console.exec s = some (.inr value, s') ∨
        ∃ s₁, turn.run? Console.exec s = some (.inl (), s₁) ∧
          (Run.loop (fun _ => turn.toRun Console.interp) ()).Reaches s₁ value s' := by
  rw [Run.reaches_while]
  simp only [Prog.reaches_toRun (S := Terminal M) reaches_interp]

end Left

/-! ## Menus -/

section Menus

variable [Printf M] {role : Role} {userId : Int} {s s' : Console}

variable (M) in
/-- The menu is left within as many turns as the input has bytes, each prompt being answered. -/
def MenuLeft (role : Role) (userId : Int) (s : Console) : Prop :=
  ∃ s', Run.iterate (fun (_ : Unit) s => (menuTurn (M := M) role userId).run? Console.exec s)
    s.stdin.length () s = some ((), s')

private theorem menuTurn_at_end (s : Console) (hend : s.stdin = []) :
    (menuTurn (M := M) role userId).run? Console.exec s = some (.inl (), s.setStdin []) := by
  rw [menuTurn, Prog.run?_bind, choice_at_end hend]
  rfl

private theorem roleMenu_not_ends (hend : s.stdin = []) : ¬ (roleMenu M role userId).Ends s :=
  turns_not_end menuTurn_at_end hend

private theorem reaches_roleMenu : (roleMenu M role userId).Reaches s () s' ↔
    (menuTurn (M := M) role userId).run? Console.exec s = some (.inr (), s') ∨
      ∃ s₁, (menuTurn (M := M) role userId).run? Console.exec s = some (.inl (), s₁) ∧
        (roleMenu M role userId).Reaches s₁ () s' :=
  reaches_turns

private theorem reaches_roleMenu_iff : (roleMenu M role userId).Reaches s () s' ↔
    Run.iterate (fun (_ : Unit) s => (menuTurn (M := M) role userId).run? Console.exec s)
      s.stdin.length () s = some ((), s') := by
  refine Run.iff_iterate (P := fun _ s value s' => (roleMenu M role userId).Reaches s value s')
    (fun s => s.stdin.length) ?_ ?_ ?_
  · intro i s value s'
    rw [reaches_roleMenu]
    refine or_congr_right ⟨fun h => ⟨(), h⟩, ?_⟩
    rintro ⟨⟨⟩, h⟩
    exact h
  · intro i s i' s' hturn hne
    exact length_after_choice_lt (List.length_pos_iff.mp (Nat.pos_of_ne_zero hne)) hturn
  · intro i s value s' hempty hreached
    exact roleMenu_not_ends (List.length_eq_zero_iff.mp hempty) ⟨value, s', hreached⟩

end Menus

/-! ## The client -/

section Client

variable [Printf M] {s s' : Console}

def menuAfter (userId : Int) (role : Bytes) : Option (Role × Int) :=
  if userId = 0 then none else (menuFor role).map fun found => (found, userId)

/-- The loops of `main` and of its menus as one machine: at the login or in a menu. -/
def clientTurn (M : Type) [Amount M] [Strtod M] [Printf M] :
    Option (Role × Int) → Console → Option ((Option (Role × Int) ⊕ Unit) × Console)
  | none, s => ((loginTurn (M := M)).run? Console.exec s).map fun out =>
      (match out.1 with
        | .inl () => .inl none
        | .inr none => .inr ()
        | .inr (some (userId, role)) => .inl (menuAfter userId role), out.2)
  | some (role, userId), s => ((menuTurn (M := M) role userId).run? Console.exec s).map fun out =>
      (match out.1 with
        | .inl () => .inl (some (role, userId))
        | .inr () => .inl none, out.2)

variable (M) in
def ClientLeft (s : Console) : Prop :=
  ∃ s', Run.iterate (clientTurn M) s.stdin.length none s = some ((), s')

variable (M) in
def Rest (at_ : Option (Role × Int)) (s s' : Console) : Prop :=
  match at_ with
  | none => (clientMain M).Reaches s () s'
  | some (role, userId) =>
      ∃ s₁, (roleMenu M role userId).Reaches s () s₁ ∧ (clientMain M).Reaches s₁ () s'

omit [Printf M] in
private theorem loginTurn_at_end (s : Console) (hend : s.stdin = []) :
    (loginTurn (M := M)).run? Console.exec s = some (.inl (), s.setStdin []) := by
  rw [loginTurn, Prog.run?_bind, choice_at_end hend]
  rfl

omit [Printf M] in
private theorem reaches_loginLoop {out : Option (Int × Bytes)} : (loginLoop M).Reaches s out s' ↔
    (loginTurn (M := M)).run? Console.exec s = some (.inr out, s') ∨
      ∃ s₁, (loginTurn (M := M)).run? Console.exec s = some (.inl (), s₁) ∧
        (loginLoop M).Reaches s₁ out s' :=
  reaches_turns

private theorem reaches_afterLogin {userId : Int} {role : Bytes} {result : Unit ⊕ Unit} :
    (afterLogin M (some (userId, role))).Reaches s result s' ↔ result = .inl () ∧
      match menuAfter userId role with
      | none => s = s'
      | some (found, userId) => (roleMenu M found userId).Reaches s () s' := by
  unfold afterLogin menuAfter
  by_cases hid : userId = 0
  · simp [hid, eq_comm]
  · cases hmenu : menuFor role with
    | none =>
        simp only [hid, hmenu, if_false, Option.map_none, Run.reaches_pure]
        exact and_congr_left' eq_comm
    | some found =>
        simp only [hid, hmenu, if_false, Option.map_some, Run.reaches_bind, Run.reaches_pure]
        constructor
        · rintro ⟨⟨⟩, s₁, hmenu, rfl, rfl⟩
          exact ⟨rfl, hmenu⟩
        · rintro ⟨rfl, hmenu⟩
          exact ⟨(), s', hmenu, rfl, rfl⟩

private theorem reaches_clientMain : (clientMain M).Reaches s () s' ↔
    ∃ out s₁, (loginLoop M).Reaches s out s₁ ∧
      match out with
      | none => s₁ = s'
      | some (userId, role) => Rest M (menuAfter userId role) s₁ s' := by
  have hagain : ∀ {userId role s₁}, Rest M (menuAfter userId role) s₁ s' ↔
      ∃ s₂, (afterLogin M (some (userId, role))).Reaches s₁ (.inl ()) s₂ ∧
        (clientMain M).Reaches s₂ () s' := by
    intro userId role s₁
    simp only [reaches_afterLogin, true_and]
    cases menuAfter userId role with
    | none => simp [Rest]
    | some menu => exact Iff.rfl
  unfold clientMain
  rw [Run.reaches_while]
  rw [← clientMain]
  simp only [Run.reaches_bind]
  constructor
  · rintro (⟨out, s₁, hlogin, hafter⟩ | ⟨s₂, ⟨out, s₁, hlogin, hafter⟩, hrest⟩)
    · refine ⟨out, s₁, hlogin, ?_⟩
      cases out with
      | none => exact (Run.reaches_pure.mp hafter).2
      | some found => cases (reaches_afterLogin.mp hafter).1
    · refine ⟨out, s₁, hlogin, ?_⟩
      cases out with
      | none => cases (Run.reaches_pure.mp hafter).1
      | some found => exact hagain.mpr ⟨s₂, hafter, hrest⟩
  · rintro ⟨out, s₁, hlogin, hout⟩
    cases out with
    | none => exact .inl ⟨none, s₁, hlogin, Run.reaches_pure.mpr ⟨rfl, hout⟩⟩
    | some found =>
        obtain ⟨s₂, hafter, hrest⟩ := hagain.mp hout
        exact .inr ⟨s₂, ⟨some found, s₁, hlogin, hafter⟩, hrest⟩

private theorem rest_unfold (place : Option (Role × Int)) (s s' : Console) :
    Rest M place s s' ↔ clientTurn M place s = some (.inr (), s') ∨
      ∃ place' s₁, clientTurn M place s = some (.inl place', s₁) ∧ Rest M place' s₁ s' := by
  cases place with
  | none =>
      have hmain : Rest M none s s' ↔ (clientMain M).Reaches s () s' := Iff.rfl
      rw [hmain, reaches_clientMain, clientTurn]
      refine (exists_congr fun out => exists_congr fun s₁ =>
        and_congr_left' reaches_loginLoop).trans ?_
      cases hturn : (loginTurn (M := M)).run? Console.exec s with
      | none => simp
      | some step =>
          obtain ⟨⟨⟩ | out, s₁⟩ := step
          · have hrest : Rest M none s₁ s' ↔ _ := reaches_clientMain
            simp [hrest]
          · cases out with
            | none => simp
            | some found => simp
  | some menu =>
      obtain ⟨role, userId⟩ := menu
      have hmenu : Rest M (some (role, userId)) s s' ↔ ∃ s₁,
        (roleMenu M role userId).Reaches s () s₁ ∧ (clientMain M).Reaches s₁ () s' := Iff.rfl
      rw [hmenu, clientTurn]
      refine (exists_congr fun s₁ => and_congr_left' reaches_roleMenu).trans ?_
      cases hturn : (menuTurn (M := M) role userId).run? Console.exec s with
      | none => simp
      | some step =>
          obtain ⟨⟨⟩ | ⟨⟩, s₁⟩ := step
          · simp [Rest]
          · simp [Rest]

private theorem clientMain_not_ends (hend : s.stdin = []) : ¬ (clientMain M).Ends s := by
  rintro ⟨⟨⟩, s', hreached⟩
  obtain ⟨out, s₁, hlogin, -⟩ := reaches_clientMain.mp hreached
  exact turns_not_end loginTurn_at_end hend ⟨out, s₁, hlogin⟩

private theorem rest_iff (place : Option (Role × Int)) (s s' : Console) :
    Rest M place s s' ↔
      Run.iterate (clientTurn M) s.stdin.length place s = some ((), s') := by
  refine Run.iff_iterate (P := fun place s _ s' => Rest M place s s')
    (fun s => s.stdin.length) (fun place s _ s' => rest_unfold place s s') ?_ ?_
  · intro place s place' s' hturn hne
    have hnonempty : s.stdin ≠ [] := List.length_pos_iff.mp (Nat.pos_of_ne_zero hne)
    rcases place with _ | ⟨role, userId⟩
    · obtain ⟨⟨result, s₁⟩, hlogin, hr⟩ := Option.map_eq_some_iff.mp hturn
      obtain rfl : s₁ = s' := congrArg Prod.snd hr
      exact length_after_choice_lt hnonempty hlogin
    · obtain ⟨⟨result, s₁⟩, hmenu, hr⟩ := Option.map_eq_some_iff.mp hturn
      obtain rfl : s₁ = s' := congrArg Prod.snd hr
      exact length_after_choice_lt hnonempty hmenu
  · intro place s _ s' hempty hrest
    have hend : s.stdin = [] := List.length_eq_zero_iff.mp hempty
    rcases place with _ | ⟨role, userId⟩
    · exact clientMain_not_ends hend ⟨(), s', hrest⟩
    · obtain ⟨s₁, hmenu, -⟩ := hrest
      exact roleMenu_not_ends hend ⟨(), s₁, hmenu⟩

end Client

/--
A prompt ends exactly when a piece of its input is accepted, and a choice loop exactly when
the input leaves it: a loop that has not ended when the input has runs for ever.
-/
theorem prompt_loops_end_iff (M : Type) [Amount M] [Strtod M] [Printf M] :
    (∀ size validator buffer stdin, (readValidatedString size validator buffer).Ends stdin ↔
      Answered size validator.accept buffer stdin) ∧
    (∀ buffer stdin, (readValidDouble (M := M) buffer).Ends stdin ↔
      Answered 128 (validAmount (M := M)) buffer stdin) ∧
    (∀ role userId s, (roleMenu M role userId).Ends s ↔ MenuLeft M role userId s) ∧
    ∀ s, (clientMain M).Ends s ↔ ClientLeft M s := by
  refine ⟨fun size validator buffer stdin => ends_prompt_iff validator.accept_nil,
    fun buffer stdin => ends_prompt_iff validAmount_nil, fun role userId s => ?_, fun s => ?_⟩
  · exact (exists_const Unit).trans (exists_congr fun s' => reaches_roleMenu_iff)
  · exact (exists_const Unit).trans (exists_congr fun s' => rest_iff none s s')

def closed : Console where
  stdin := []
  arrays _ := []
  ints _ := 0
  replies _ := ⟨-1, []⟩
  sent := []

/-- An empty line is asked for again; then the feedback is sent and the user logs out. -/
example : (Run.iterate (fun (_ : Unit) s => (menuTurn (M := ℚ) .customer 1001).run? Console.exec s)
    17 () { closed with
      stdin := str "7\n\nall fine\n12\n"
      replies := fun _ => ⟨0, []⟩ }).isSome = true := by
  decide +kernel

/-- None of the loops ends there. -/
theorem loops_at_end_of_input :
    ¬ (readValidatedString maxFnameLen .namePart []).Ends closed.stdin ∧
    ¬ (readValidDouble (M := ℚ) []).Ends closed.stdin ∧
    (∀ role, ¬ (roleMenu ℚ role 1001).Ends closed) ∧ ¬ (clientMain ℚ).Ends closed := by
  refine ⟨?_, ?_, fun role => roleMenu_not_ends rfl, clientMain_not_ends rfl⟩
  · exact not_ends_of_rejected (Validator.accept_nil _) (.inr ⟨rfl, Validator.accept_nil _⟩)
  · exact not_ends_of_rejected validAmount_nil (.inr ⟨rfl, validAmount_nil⟩)

end BankingSystem
