import BankingSystem.Frontend.Forms

/-!
# Feedback on the wire

`ADD_FEEDBACK` is the one payload that the router does not scan to its end: the message
is what follows the first blank.
-/

namespace BankingSystem

open Foundation

variable {M : Type} [Amount M] [Strtod M]

private theorem afterBlank_append {field : Bytes} (h : HasNoSpace field) (text : Bytes) :
    afterBlank (field ++ 32 :: text) = text := by
  have hfield : ∀ b ∈ field, decide (b ≠ 32) = true := by
    intro b hb
    have hspace := h b hb
    by_cases hblank : b = 32
    · subst hblank
      cases hspace
    · simpa using hblank
  rw [afterBlank, (span_field (fun b => decide (b ≠ 32)) hfield (by simp)).2]
  rfl

private theorem hasNoSpace_dec (n : Nat) : HasNoSpace (dec n) := by
  intro b hb
  have hdigit := isDigit_of_mem_dec hb
  cases hspace : isSpace b with
  | false => rfl
  | true =>
      rw [not_isDigit_of_isSpace hspace] at hdigit
      cases hdigit

variable [Printf M]

private theorem feedback_command {userId : Nat} (h : userId < 2 ^ 32) (form : Form M)
    (locals : Locals M) :
    (customerMenu userId form 7).command locals =
      some (.call (.addFeedback userId form.feedback.text)) := by
  have hid : decUnsigned userId = dec userId := by
    rw [decUnsigned]
    congr 1
    omega
  have hmenu : customerMenu userId form 7 =
      .send Op.addFeedback.name (spaced [dec userId, form.feedback.text]) := by
    rw [← hid]
    rfl
  have hlength := length_dec_le h
  have hshort := form.feedback.isShort
  rw [hmenu, command_op .addFeedback locals]
  · have hscan : sscanf (M := M) [.u] (spaced [dec userId, form.feedback.text]) =
        [.unsigned userId] :=
      sscanf_spaced (reads_dec h) [] [form.feedback.text]
    have hmessage : afterBlank (spaced [dec userId, form.feedback.text]) = form.feedback.text := by
      rw [spaced_cons, if_neg (by simp), spaced_cons, if_pos rfl, List.append_nil]
      exact afterBlank_append (hasNoSpace_dec userId) _
    simp only [Op.branch, hscan, hmessage]
    rfl
  · simp [Answer.cstr_text, cstr_dec]
  · simp [maxMsgLen]
    omega

omit [Strtod M] [Printf M] in
private theorem handle_addFeedback (env : Env) (userId : Nat) (msg : Bytes) (db : Database M) :
    ((Request.addFeedback userId msg).handle env db).2.feedbackTable = db.feedbackTable ++
      [{ fbId := db.feedbackTable.length + 1, userId, message := .ofText msg, reviewed := 0,
         actionTaken := .zero _, submittedAt := db.clock 0 }] := rfl

/--
Whatever the user types at the feedback prompt of the menu, the request stores one more
record, with the user's id, exactly the message and `reviewed = 0`.
-/
theorem feedback_survives_wire (env : Env) (db : Database M) {userId : Nat}
    (h : userId < 2 ^ 32) (form : Form M) (locals : Locals M) :
    ∃ request, (customerMenu userId form 7).command locals = some (.call request) ∧
      (request.handle env db).1.result = true ∧
      ∃ fb, (request.handle env db).2.feedbackTable = db.feedbackTable ++ [fb] ∧
        fb.userId = userId ∧ fb.message.text = form.feedback.text ∧ fb.reviewed = 0 := by
  refine ⟨_, feedback_command h form locals, rfl, _, handle_addFeedback .., rfl, ?_, rfl⟩
  exact CharArray.text_ofText form.feedback.cstr_text form.feedback.isShort

/-- A message that begins like the id in front of it. -/
def numberedFeedback : Form ℚ :=
  { annForm with feedback := ⟨str "  42 %s", by decide +kernel, by decide, rfl⟩ }

theorem feedback_survives_wire_numbered :
    ∃ request : Request ℚ,
      (customerMenu 1001 numberedFeedback 7).command .zero = some (.call request) ∧
      (request.handle .plain (Database.empty fun _ => 1)).1.result = true ∧
      ∃ fb, (request.handle .plain (Database.empty fun _ => 1)).2.feedbackTable = [fb] ∧
        fb.userId = 1001 ∧ fb.message.text = str "  42 %s" ∧ fb.reviewed = 0 :=
  feedback_survives_wire .plain (Database.empty fun _ => 1) (by decide) numberedFeedback .zero

end BankingSystem
