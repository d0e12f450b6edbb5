import BankingSystem.Frontend.Agreement
import BankingSystem.Requests.Refinement

/-!
# Forms that reach the module functions

The validators reject the blank, and only that; the router splits at any white space.
-/

namespace BankingSystem

open Foundation

variable {M : Type} [Amount M] [Strtod M]

def Turn.command (locals : Locals M) : Turn → Option (Command M)
  | .send op payload =>
      let raw := RawRequest.ofText op payload
      some (dispatch locals raw.op.text raw.payload.text)
  | _ => none

namespace Form

def details (form : Form M) : Details where
  firstName := form.firstName.text
  lastName := form.lastName.text
  age := form.age
  address := form.address.text
  email := form.email.text
  phone := form.phone.text

def addCustomerParts (form : Form M) : List Bytes :=
  [form.firstName.text, form.lastName.text, decInt form.age, form.address.text, form.email.text,
    form.phone.text, form.username.text, form.password.text]

def modifyParts (id : Int) (form : Form M) : List Bytes :=
  [decUnsigned id, decInt form.age, form.firstName.text, form.lastName.text, form.address.text,
    form.email.text, form.phone.text]

def addEmployeeParts (form : Form M) : List Bytes :=
  [form.firstName.text, form.lastName.text, decInt form.age, form.address.text, form.role.text,
    form.email.text, form.phone.text, form.username.text, form.password.text]

def HasInt (form : Form M) : Prop := -2 ^ 31 ≤ form.age ∧ form.age < 2 ^ 31

/-- The record that `add_new_customer` is called with holds the details entered. -/
structure EnteredIn (form : Form M) (user : UserRec) : Prop where
  firstName : user.firstName.text = form.firstName.text
  lastName : user.lastName.text = form.lastName.text
  age : (user.age.toNat : Int) = form.age
  address : user.address.text = form.address.text
  email : user.email.text = form.email.text
  phone : user.phone.text = form.phone.text

/-- `ADD_CUSTOMER` calls `add_new_customer` with exactly the values entered. -/
def AddSurvives (userId : Int) (form : Form M) (locals : Locals M) : Prop :=
  ∃ user, (employeeMenu userId form 1).command locals =
    some (.call (.addCustomer user form.username.text form.password.text)) ∧ form.EnteredIn user

def ModifySurvives (userId : Int) (form : Form M) (locals : Locals M) : Prop :=
  (employeeMenu userId form 2).command locals = some (.call (.modifyCustomer
    (accountNumber form.acctStr.text % 2 ^ 32).toNat form.details))

/-- No white space in the details; digits alone can be a phone number. -/
structure Unspaced (form : Form M) : Prop where
  firstName : HasNoSpace form.firstName.text
  lastName : HasNoSpace form.lastName.text
  address : HasNoSpace form.address.text
  email : HasNoSpace form.email.text

/-- Strings of the greatest length meet a zero last byte in the router's record. -/
structure ClosedBy (form : Form M) (user : UserRec) : Prop where
  firstName : user.firstName.Closes form.firstName.text
  lastName : user.lastName.Closes form.lastName.text
  address : user.address.Closes form.address.text
  email : user.email.Closes form.email.text

end Form

/-! ## Answers as fields -/

namespace Answer

variable {size : Nat} {validator : Bytes → Except Bytes Unit}

theorem cstr_text (answer : Answer size validator) : cstr answer.text = answer.text :=
  List.takeWhile_eq_self_iff.mpr fun b hb => by simpa using (answer.isLine b hb).1

private theorem word_ne_nil {limit : Nat} {tooLong noSpaces : Bytes}
    (answer : Answer size (validateWord limit tooLong noSpaces)) : answer.text ≠ [] := by
  intro hnil
  have haccepted := answer.accepted
  simp [validateWord, validateNotEmpty, hnil, Except.bind, bind] at haccepted

private theorem email_ne_nil (answer : Answer size validateEmail) : answer.text ≠ [] := by
  intro hnil
  have haccepted := answer.accepted
  simp [validateEmail, validateNotEmpty, hnil, Except.bind, bind] at haccepted

private theorem phone_digits (answer : Answer size validatePhone) :
    answer.text.length = 10 ∧ ∀ b ∈ answer.text, isDigit b = true := by
  have haccepted := answer.accepted
  simp only [validatePhone, validateNotEmpty, bind, Except.bind] at haccepted
  split at haccepted
  · cases haccepted
  · split at haccepted
    · cases haccepted
    · split at haccepted
      · cases haccepted
      · next hlength hdigits =>
          simp only [ne_eq, not_not, List.all_eq_true] at hlength hdigits
          exact ⟨hlength, hdigits⟩

private theorem phone_ne_nil (answer : Answer size validatePhone) : answer.text ≠ [] := by
  have hlength := answer.phone_digits.1
  intro hnil
  simp [hnil] at hlength

private theorem phone_hasNoSpace (answer : Answer size validatePhone) : HasNoSpace answer.text := by
  intro b hb
  have hdigit := answer.phone_digits.2 b hb
  cases hspace : isSpace b with
  | false => rfl
  | true =>
      rw [not_isDigit_of_isSpace hspace] at hdigit
      cases hdigit

end Answer

/-! ## Payloads that arrive -/

private theorem cstr_spaced {parts : List Bytes} (h : ∀ part ∈ parts, cstr part = part) :
    cstr (spaced parts) = spaced parts := by
  refine List.takeWhile_eq_self_iff.mpr ?_
  induction parts with
  | nil => simp [spaced]
  | cons part parts ih =>
      have hpart := List.takeWhile_eq_self_iff.mp (h part (by simp))
      have hparts := ih fun part hmem => h part (by simp [hmem])
      intro b hb
      rw [spaced_cons, List.mem_append] at hb
      rcases hb with hb | hb
      · exact hpart b hb
      · split at hb
        · cases hb
        · rcases List.mem_cons.mp hb with rfl | hb
          · rfl
          · exact hparts b hb

private theorem length_spaced_le (parts : List Bytes) :
    (spaced parts).length ≤ (parts.map fun part => part.length + 1).sum := by
  induction parts with
  | nil => simp [spaced]
  | cons part parts ih =>
      rw [spaced_cons, List.length_append, List.map_cons, List.sum_cons]
      split
      · simp
        omega
      · simp only [List.length_cons]
        omega

theorem cstr_dec (n : Nat) : cstr (dec n) = dec n := by
  refine List.takeWhile_eq_self_iff.mpr fun b hb => ?_
  have hdigit := isDigit_of_mem_dec hb
  by_cases hzero : b = 0
  · subst hzero
    cases hdigit
  · simpa using hzero

private theorem cstr_decInt (n : Int) : cstr (decInt n) = decInt n := by
  cases n with
  | ofNat n => exact cstr_dec n
  | negSucc n =>
      have hminus : decInt (.negSucc n) = 45 :: dec (n + 1) := rfl
      rw [hminus, cstr, List.takeWhile_cons_of_pos (by decide)]
      exact congrArg (45 :: ·) (cstr_dec (n + 1))

private theorem op_arrives (o : Op) : (CharArray.ofText o.name : CharArray 64).text = o.name := by
  cases o <;> decide +kernel

omit [Amount M] in
theorem command_op (o : Op) (locals : Locals M) {parts : List Bytes}
    (hline : ∀ part ∈ parts, cstr part = part)
    (hlength : (parts.map fun part => part.length + 1).sum < maxMsgLen) :
    (Turn.send o.name (spaced parts)).command locals =
      some (o.branch locals o.name (spaced parts)) := by
  have hpayload : (CharArray.ofText (spaced parts) : CharArray maxMsgLen).text = spaced parts :=
    CharArray.text_ofText (cstr_spaced hline) (by
      have := length_spaced_le parts
      omega)
  simp only [Turn.command, RawRequest.ofText, op_arrives, hpayload, dispatch_op]

section Commands

variable (userId : Int) (form : Form M) (locals : Locals M)

variable {form}

omit [Strtod M] in
theorem Form.lengths (hage : form.HasInt) :
    form.firstName.text.length < 64 ∧ form.lastName.text.length < 64 ∧
    form.address.text.length < 256 ∧ form.email.text.length < 64 ∧
    form.phone.text.length < 16 ∧ form.username.text.length < 64 ∧
    form.password.text.length < 128 ∧ form.role.text.length < 32 ∧
    (decInt form.age).length ≤ 11 :=
  ⟨form.firstName.isShort, form.lastName.isShort, form.address.isShort, form.email.isShort,
    form.phone.isShort, form.username.isShort, form.password.isShort, form.role.isShort,
    length_decInt_le hage.1 hage.2⟩

private theorem Form.addCustomer_command (hage : form.HasInt) :
    (employeeMenu userId form 1).command locals =
      some (Op.branch locals (str "ADD_CUSTOMER") (spaced form.addCustomerParts) .addCustomer) := by
  refine command_op .addCustomer locals ?_ ?_
  · simp [Answer.cstr_text, cstr_decInt]
  · have hlengths := form.lengths hage
    simp [maxMsgLen]
    omega

private theorem decUnsigned_lt (id : Int) : (id % 2 ^ 32).toNat < 2 ^ 32 := by omega

private theorem Form.modify_command (o : Op) (id : Int) (hage : form.HasInt) :
    (Turn.send o.name (spaced (form.modifyParts id))).command locals =
      some (o.branch locals o.name (spaced (form.modifyParts id))) := by
  refine command_op o locals ?_ ?_
  · simp [modifyParts, Answer.cstr_text, cstr_decInt, decUnsigned, cstr_dec]
  · have hlengths := form.lengths hage
    have hid := length_dec_le (decUnsigned_lt id)
    simp [modifyParts, maxMsgLen, decUnsigned] at hid ⊢
    omega

private theorem Form.addEmployee_command (hage : form.HasInt) :
    (Turn.send (str "ADD_EMPLOYEE") (spaced form.addEmployeeParts)).command locals =
      some (Op.branch locals (str "ADD_EMPLOYEE") (spaced form.addEmployeeParts) .addEmployee) := by
  refine command_op .addEmployee locals ?_ ?_
  · simp [addEmployeeParts, Answer.cstr_text, cstr_decInt]
  · have hlengths := form.lengths hage
    simp [addEmployeeParts, maxMsgLen]
    omega

end Commands

/-! ## Customer forms -/

section Customers

variable {userId : Int} {form : Form M} {locals : Locals M}

private theorem Form.sscanf_addCustomer (h : form.Unspaced)
    (husername : HasNoSpace form.username.text) (hpassword : HasNoSpace form.password.text) :
    sscanf (M := M) Op.addCustomer.format (spaced form.addCustomerParts) =
      [.text form.firstName.text, .text form.lastName.text, .signed (scannedInt form.age),
        .text form.address.text, .text form.email.text, .text form.phone.text,
        .text form.username.text, .text form.password.text] := by
  simp only [Op.format, addCustomerParts]
  rw [sscanf_spaced (reads_word form.firstName.word_ne_nil h.firstName),
    sscanf_spaced (reads_word form.lastName.word_ne_nil h.lastName),
    sscanf_spaced (reads_decInt form.age),
    sscanf_spaced (reads_word form.address.word_ne_nil h.address),
    sscanf_spaced (reads_word form.email.email_ne_nil h.email),
    sscanf_spaced (reads_word form.phone.phone_ne_nil form.phone.phone_hasNoSpace),
    sscanf_spaced (reads_word form.username.word_ne_nil husername),
    sscanf_spaced (reads_word form.password.word_ne_nil hpassword)]
  rfl

private theorem Form.sscanf_modify (h : form.Unspaced) (id : Int) :
    sscanf (M := M) Op.modifyCustomer.format (spaced (form.modifyParts id)) =
      [.unsigned (id % 2 ^ 32).toNat, .signed (scannedInt form.age), .text form.firstName.text,
        .text form.lastName.text, .text form.address.text, .text form.email.text,
        .text form.phone.text] := by
  simp only [Op.format, modifyParts, decUnsigned]
  rw [sscanf_spaced (reads_dec (decUnsigned_lt id)), sscanf_spaced (reads_decInt form.age),
    sscanf_spaced (reads_word form.firstName.word_ne_nil h.firstName),
    sscanf_spaced (reads_word form.lastName.word_ne_nil h.lastName),
    sscanf_spaced (reads_word form.address.word_ne_nil h.address),
    sscanf_spaced (reads_word form.email.email_ne_nil h.email),
    sscanf_spaced (reads_word form.phone.phone_ne_nil form.phone.phone_hasNoSpace)]
  rfl

private theorem age_of_int {age : Int} (hlow : 0 ≤ age) (hhigh : age ≤ 255) :
    ((ageOfInt age).toNat : Int) = age := by
  rw [toNat_ageOfInt]
  omega

private theorem text_copied {size : Nat} {validator : Bytes → Except Bytes Unit}
    {array : CharArray size} (answer : Answer size validator) (h : array.Closes answer.text) :
    (array.strncpy answer.text).text = answer.text := by
  have hshort := answer.isShort
  rw [CharArray.text_strncpy_of_closes (by omega) (by rw [answer.cstr_text]; omega) h,
    answer.cstr_text]

omit [Strtod M] in
private theorem Form.enteredIn (hcloses : form.ClosedBy locals.user)
    (hbyte : 0 ≤ form.age ∧ form.age ≤ 255) :
    form.EnteredIn (locals.user.setDetails form.details) where
  firstName := text_copied form.firstName hcloses.firstName
  lastName := text_copied form.lastName hcloses.lastName
  age := age_of_int hbyte.1 hbyte.2
  address := text_copied form.address hcloses.address
  email := text_copied form.email hcloses.email
  phone := by
    refine text_copied form.phone fun hfull => ?_
    rw [form.phone.cstr_text, form.phone.phone_digits.1] at hfull
    cases hfull

private theorem copied_field {size : Nat} {validator : Bytes → Except Bytes Unit}
    {array : CharArray size} {token : Bytes} (answer : Answer size validator)
    (htoken : HasNoSpace token) (h : (array.strncpy token).text = answer.text) :
    HasNoSpace answer.text ∧ array.Closes answer.text := by
  have hshort := answer.isShort
  rw [← h] at hshort
  obtain ⟨htake, hcloses⟩ := CharArray.text_of_short hshort
  rw [h] at htake hcloses
  refine ⟨fun b hb => ?_, hcloses⟩
  rw [htake] at hb
  exact htoken b ((List.takeWhile_prefix _).subset (List.mem_of_mem_take hb))

private theorem Form.addSurvives_iff (userId : Int) (hage : form.HasInt) (locals : Locals M) :
    form.AddSurvives userId locals ↔
      form.Unspaced ∧ HasNoSpace form.username.text ∧ HasNoSpace form.password.text ∧
        (0 ≤ form.age ∧ form.age ≤ 255) ∧ form.ClosedBy locals.user := by
  rw [AddSurvives, addCustomer_command userId locals hage]
  simp only [Op.branch]
  constructor
  · rintro ⟨user, hcommand, hentered⟩
    split at hcommand
    · simp only [Option.some.injEq, Command.call.injEq, Request.addCustomer.injEq] at hcommand
      obtain ⟨rfl, husername, hpassword⟩ := hcommand
      have htoken := hasNoSpace_textAt (M := M) [.s, .s, .d, .s, .s, .s, .s, .s]
        (spaced form.addCustomerParts)
      have hfirst := copied_field form.firstName (htoken 0) hentered.firstName
      have hlast := copied_field form.lastName (htoken 1) hentered.lastName
      have haddress := copied_field form.address (htoken 3) hentered.address
      have hemail := copied_field form.email (htoken 4) hentered.email
      have hage := hentered.age
      have hbyte := UInt8.toNat_lt (newUser
        (sscanf (M := M) [.s, .s, .d, .s, .s, .s, .s, .s] (spaced form.addCustomerParts))
        locals).age
      exact ⟨⟨hfirst.1, hlast.1, haddress.1, hemail.1⟩, husername ▸ htoken 6, hpassword ▸ htoken 7,
        by omega, ⟨hfirst.2, hlast.2, haddress.2, hemail.2⟩⟩
    · simp at hcommand
  · rintro ⟨hunspaced, husername, hpassword, hbyte, hcloses⟩
    have hscan := form.sscanf_addCustomer hunspaced husername hpassword
    simp only [Op.format, scannedInt_eq hage.1 hage.2] at hscan
    rw [hscan]
    exact ⟨_, rfl, form.enteredIn hcloses hbyte⟩

private theorem Form.modifySurvives_iff (userId : Int) (hage : form.HasInt) (locals : Locals M) :
    form.ModifySurvives userId locals ↔ form.Unspaced := by
  have hmenu : employeeMenu userId form 2 = .send Op.modifyCustomer.name
      (spaced (form.modifyParts (accountNumber form.acctStr.text))) := rfl
  rw [ModifySurvives, hmenu, modify_command locals .modifyCustomer _ hage]
  generalize accountNumber form.acctStr.text = id
  simp only [Op.branch]
  constructor
  · intro hcommand
    split at hcommand
    · simp only [Option.some.injEq, Command.call.injEq, Request.modifyCustomer.injEq] at hcommand
      obtain ⟨-, hdetails⟩ := hcommand
      have htoken := hasNoSpace_textAt (M := M) [.u, .d, .s, .s, .s, .s, .s]
        (spaced (form.modifyParts id))
      have hfirst : _ = form.firstName.text := congrArg Details.firstName hdetails
      have hlast : _ = form.lastName.text := congrArg Details.lastName hdetails
      have haddress : _ = form.address.text := congrArg Details.address hdetails
      have hemail : _ = form.email.text := congrArg Details.email hdetails
      exact ⟨hfirst ▸ htoken 2, hlast ▸ htoken 3, haddress ▸ htoken 4, hemail ▸ htoken 5⟩
    · simp at hcommand
  · intro hunspaced
    have hscan := form.sscanf_modify hunspaced id
    simp only [Op.format, scannedInt_eq hage.1 hage.2] at hscan
    rw [hscan]
    rfl

end Customers

/--
A customer form reaches its module function as it was entered if and only if no
answer holds white space; for a new customer the age has to fit one byte, and strings
of the greatest length need a zero last byte in the record of the router.
-/
theorem customer_forms_survive_iff (userId : Int) (form : Form M) (hage : form.HasInt)
    (locals : Locals M) :
    (form.AddSurvives userId locals ↔
      form.Unspaced ∧ HasNoSpace form.username.text ∧ HasNoSpace form.password.text ∧
        (0 ≤ form.age ∧ form.age ≤ 255) ∧ form.ClosedBy locals.user) ∧
    (form.ModifySurvives userId locals ↔ form.Unspaced) :=
  ⟨form.addSurvives_iff userId hage locals, form.modifySurvives_iff userId hage locals⟩

/-- Her form has no white space. -/
theorem customer_forms_survive_ann :
    annForm.AddSurvives 1001 .zero ∧ annForm.ModifySurvives 1001 .zero := by
  have hint : annForm.HasInt := ⟨by decide, by decide⟩
  have hunspaced : annForm.Unspaced :=
    ⟨by decide +kernel, by decide +kernel, by decide +kernel, by decide +kernel⟩
  have hcloses : annForm.ClosedBy (Locals.zero (M := ℚ)).user :=
    ⟨fun _ => CharArray.terminated_zero (by decide),
      fun _ => CharArray.terminated_zero (by decide),
      fun _ => CharArray.terminated_zero (by decide),
      fun _ => CharArray.terminated_zero (by decide)⟩
  obtain ⟨hadd, hmodify⟩ := customer_forms_survive_iff 1001 annForm hint .zero
  exact ⟨hadd.mpr ⟨hunspaced, by decide +kernel, by decide +kernel, by decide, hcloses⟩,
    hmodify.mpr hunspaced⟩

def blankInEmail : Form ℚ :=
  { annForm with email := ⟨str "a b@c.d", by decide +kernel, by decide, rfl⟩ }

/-- The address becomes two fields, and the second one is stored as the phone number. -/
theorem blank_in_email_splits :
    ¬ ∀ (userId : Int) (form : Form ℚ) (locals : Locals ℚ), form.HasInt →
      form.AddSurvives userId locals ∧ form.ModifySurvives userId locals := by
  intro h
  have hsurvives := (h 1001 blankInEmail .zero ⟨by decide, by decide⟩).2
  have hsplit : (employeeMenu 1001 blankInEmail 2).command (Locals.zero (M := ℚ)) ≠
      some (.call (.modifyCustomer (accountNumber blankInEmail.acctStr.text % 2 ^ 32).toNat
        blankInEmail.details)) := by
    decide +kernel
  exact hsplit hsurvives

/-! ## The two modify operations -/

/-- Both branches take the payload, with the same values, or neither does. -/
def SameCalls (locals locals' : Locals M) (payload : Bytes) : Prop :=
  ∀ userId details,
    dispatch locals (str "MODIFY_USER") payload = .call (.modifyUser userId details) ↔
      dispatch locals' (str "MODIFY_CUSTOMER") payload = .call (.modifyCustomer userId details)

omit [Amount M] in
private theorem sameCalls_iff (locals locals' : Locals M) (payload : Bytes) :
    SameCalls locals locals' payload ↔ placesFilled Op.modifyUser.places (words payload) < 6 := by
  have htakes : List.Forall₂ Place.Takes Op.modifyUser.places Op.modifyUser.format := by
    repeat constructor
  have hlength := length_sscanf (M := M) htakes payload
  have hle := length_sscanf_le (M := M) Op.modifyUser.format payload
  have huser := dispatch_op Op.modifyUser locals payload
  have hcustomer := dispatch_op Op.modifyCustomer locals' payload
  simp only [Op.name, Op.branch] at huser hcustomer
  simp only [Op.format, List.length_cons, List.length_nil] at hlength hle
  rw [SameCalls, huser, hcustomer, ← hlength]
  generalize sscanf (M := M) [.u, .d, .s, .s, .s, .s, .s] payload = values at hle
  constructor
  · intro hsame
    by_contra hmany
    by_cases hsix : values.length = 6
    · have hcall := (hsame _ _).mp (if_pos hsix)
      rw [if_neg (by omega)] at hcall
      cases hcall
    · have hcall := (hsame _ _).mpr (if_pos (by omega))
      rw [if_neg hsix] at hcall
      cases hcall
  · intro hfew userId details
    rw [if_neg (by omega), if_neg (by omega)]
    simp

/--
The two branches agree on a payload if and only if it fills fewer than six of the
seven fields; in particular no form of the administrator reaches `modify_user`.
-/
theorem modify_branches_agree_iff (locals locals' : Locals M) :
    (∀ payload, SameCalls locals locals' payload ↔
      placesFilled Op.modifyUser.places (words payload) < 6) ∧
    ∀ (userId : Int) (form : Form M), form.HasInt → form.Unspaced →
      (adminMenu userId form 2).command locals =
        some (.invalidPayload (str "MODIFY_USER")) := by
  refine ⟨sameCalls_iff locals locals', fun userId form hage hunspaced => ?_⟩
  have hmenu : adminMenu userId form 2 =
      .send Op.modifyUser.name (spaced (form.modifyParts form.targetId)) := rfl
  have hscan := form.sscanf_modify hunspaced form.targetId
  simp only [Op.format] at hscan
  rw [hmenu, Form.modify_command locals .modifyUser _ hage]
  simp only [Op.branch, hscan]
  rfl

/-- Three words are refused by both; a whole form is refused by `MODIFY_USER`. -/
theorem modify_branches_agree_ann :
    SameCalls (Locals.zero (M := ℚ)) .zero (str "1001 30 Ann") ∧
      (adminMenu 1001 annForm 2).command (Locals.zero (M := ℚ)) =
        some (.invalidPayload (str "MODIFY_USER")) := by
  obtain ⟨hsame, hforms⟩ := modify_branches_agree_iff (Locals.zero (M := ℚ)) .zero
  exact ⟨(hsame _).mpr (by decide +kernel), hforms 1001 annForm ⟨by decide, by decide⟩
    ⟨by decide +kernel, by decide +kernel, by decide +kernel, by decide +kernel⟩⟩

/-- A whole payload is taken by the one branch and refused by the other. -/
theorem modify_branches_differ :
    ¬ ∀ (locals locals' : Locals ℚ) (payload : Bytes), SameCalls locals locals' payload := by
  intro h
  have hsame := h .zero .zero (spaced (annForm.modifyParts 1001)) 1001 annForm.details
  have hcustomer : dispatch (Locals.zero (M := ℚ)) (str "MODIFY_CUSTOMER")
      (spaced (annForm.modifyParts 1001)) = .call (.modifyCustomer 1001 annForm.details) := by
    decide +kernel
  have huser : dispatch (Locals.zero (M := ℚ)) (str "MODIFY_USER")
      (spaced (annForm.modifyParts 1001)) ≠ .call (.modifyUser 1001 annForm.details) := by
    decide +kernel
  exact huser (hsame.mpr hcustomer)

/-! ## New staff -/

section Staff

variable {κ : Type} [DecidableEq κ]

def Turn.serve (env : Env) (locals : Locals M) (c : κ) (s : ServerState κ M) :
    Turn → ServerState κ M
  | .send op payload => (handleRequest env locals c (.ofText op payload) s).2
  | _ => s

namespace Form

structure AllUnspaced (form : Form M) : Prop extends form.Unspaced where
  username : HasNoSpace form.username.text
  password : HasNoSpace form.password.text

def Unused (form : Form M) (users : List UserRec) : Prop :=
  ∀ user ∈ users, user.username.text ≠ form.username.text ∧
    user.email.text ≠ form.email.text ∧ user.phone.text ≠ form.phone.text

structure Describes (env : Env) (form : Form M) (user : UserRec) : Prop
    extends form.EnteredIn user where
  username : user.username.text = form.username.text
  password : user.passwordHash = generatePasswordHash env form.password.text (.zero _)
  role : staffRole form.role.text = some user.role

/-- The form adds a member of staff; with another role entered it adds nobody. -/
def AddsStaff (env : Env) (locals : Locals M) (c : κ) (s : ServerState κ M) (userId : Int)
    (form : Form M) : Prop :=
  let users := ((adminMenu userId form 1).serve env locals c s).db.userTable
  if form.role.text = str "employee" ∨ form.role.text = str "manager" then
    ∃ user ∈ users, form.Describes env user
  else users = s.db.userTable

end Form

variable {env : Env} {locals : Locals M} {c : κ} {s : ServerState κ M} {form : Form M}

private theorem Form.sscanf_addEmployee (h : form.AllUnspaced) (hrole : HasNoSpace form.role.text) :
    sscanf (M := M) Op.addEmployee.format (spaced form.addEmployeeParts) =
      [.text form.firstName.text, .text form.lastName.text, .signed (scannedInt form.age),
        .text form.address.text, .text form.role.text, .text form.email.text,
        .text form.phone.text, .text form.username.text, .text form.password.text] := by
  simp only [Op.format, addEmployeeParts]
  rw [sscanf_spaced (reads_word form.firstName.word_ne_nil h.firstName),
    sscanf_spaced (reads_word form.lastName.word_ne_nil h.lastName),
    sscanf_spaced (reads_decInt form.age),
    sscanf_spaced (reads_word form.address.word_ne_nil h.address),
    sscanf_spaced (reads_word form.role.word_ne_nil hrole),
    sscanf_spaced (reads_word form.email.email_ne_nil h.email),
    sscanf_spaced (reads_word form.phone.phone_ne_nil form.phone.phone_hasNoSpace),
    sscanf_spaced (reads_word form.username.word_ne_nil h.username),
    sscanf_spaced (reads_word form.password.word_ne_nil h.password)]
  rfl

private theorem Form.addEmployee_sent (hage : form.HasInt) (h : form.AllUnspaced)
    (hrole : HasNoSpace form.role.text) (locals : Locals M) :
    (Turn.send (str "ADD_EMPLOYEE") (spaced form.addEmployeeParts)).command locals =
      some (.call (.addEmployee form.details form.role.text form.username.text
        form.password.text)) := by
  have hscan := form.sscanf_addEmployee h hrole
  simp only [Op.format, scannedInt_eq hage.1 hage.2] at hscan
  rw [form.addEmployee_command locals hage]
  simp only [Op.branch, hscan]
  rfl

omit [Strtod M] in
/-- The server refuses the only role that the client lets through. -/
private theorem addEmployee_customer (env : Env) (details : Details) (username password : Bytes)
    (db : Database M) :
    ((Request.addEmployee details (str "customer") username password).handle env
      db).2.userTable = db.userTable := by
  have hticks : db.Ticks Set.univ := fun _ => trivial
  have hstep := Request.handle_step env
    (.addEmployee details (str "customer") username password) hticks
  generalize hdb : ((Request.addEmployee details (str "customer") username password).handle env
    db).2 = db' at hstep ⊢
  generalize hreply : ((Request.addEmployee details (str "customer") username password).handle env
    db).1.result = result at hstep
  generalize htables : db'.tables = t' at hstep
  have husers : t'.users = db.tables.users := by
    cases hstep with
    | refused => rfl
    | looked hread => rfl
    | employeeAdded _ hrole =>
        have hnone : staffRole (str "customer") = none := by decide +kernel
        rw [hnone] at hrole
        cases hrole
  rw [← htables] at husers
  exact husers

private theorem Form.serve_users (hage : form.HasInt) (hunspaced : form.AllUnspaced)
    (userId : Int) :
    ((adminMenu userId form 1).serve env locals c s).db.userTable = s.db.userTable := by
  by_cases hrole : form.role.text = str "customer"
  · have hmenu : adminMenu userId form 1 =
        .send (str "ADD_EMPLOYEE") (spaced form.addEmployeeParts) := by
      simp [adminMenu, hrole, addEmployeeParts]
    have hcommand := form.addEmployee_sent hage hunspaced (by rw [hrole]; decide +kernel) locals
    simp only [Turn.command, Option.some.injEq] at hcommand
    rw [hmenu]
    simp only [Turn.serve, handleRequest, hcommand, hrole]
    exact addEmployee_customer env form.details form.username.text form.password.text s.db
  · have hmenu : adminMenu userId form 1 = .again := by simp [adminMenu, hrole]
    rw [hmenu]
    rfl

/--
The form for new staff does what it is meant to do if and only if the role entered is
neither of the two that it asks for: then nobody is added, and for these two neither.
-/
theorem staff_added_iff (hage : form.HasInt) (hunspaced : form.AllUnspaced)
    (hunused : form.Unused s.db.userTable) (env : Env) (locals : Locals M) (c : κ) (userId : Int) :
    form.AddsStaff env locals c s userId ↔
      form.role.text ≠ str "employee" ∧ form.role.text ≠ str "manager" := by
  rw [Form.AddsStaff, form.serve_users hage hunspaced userId]
  constructor
  · intro h
    split at h
    · obtain ⟨user, huser, hdescribes⟩ := h
      exact absurd hdescribes.username (hunused user huser).1
    · next hrole => exact not_or.mp hrole
  · intro hrole
    rw [if_neg (not_or.mpr hrole)]

end Staff

def nobody : ServerState (Fin 1) ℚ := .init (Database.empty fun _ => 1)

private theorem unused_nobody (form : Form ℚ) : form.Unused nobody.db.userTable := by
  intro user huser
  cases huser

def tellerForm : Form ℚ :=
  { annForm with role := ⟨str "teller", by decide +kernel, by decide, rfl⟩ }

/-- Nobody asks for a teller, and none is added. -/
theorem staff_added_teller : tellerForm.AddsStaff .plain .zero 0 nobody 1001 := by
  have hunspaced : tellerForm.AllUnspaced :=
    ⟨⟨by decide +kernel, by decide +kernel, by decide +kernel, by decide +kernel⟩,
      by decide +kernel, by decide +kernel⟩
  exact (staff_added_iff ⟨by decide, by decide⟩ hunspaced (unused_nobody _) .plain .zero 0
    1001).mpr (by decide +kernel)

/-- A manager is asked for and not added. -/
theorem manager_not_added :
    ¬ ∀ (form : Form ℚ) (s : ServerState (Fin 1) ℚ), form.HasInt → form.AllUnspaced →
      form.Unused s.db.userTable → form.AddsStaff .plain .zero 0 s 1001 := by
  intro h
  have hunspaced : annForm.AllUnspaced :=
    ⟨⟨by decide +kernel, by decide +kernel, by decide +kernel, by decide +kernel⟩,
      by decide +kernel, by decide +kernel⟩
  have hadded := h annForm nobody ⟨by decide, by decide⟩ hunspaced (unused_nobody _)
  rw [Form.AddsStaff, if_pos (.inr rfl)] at hadded
  obtain ⟨user, huser, -⟩ := hadded
  cases huser

end BankingSystem
