import BankingSystem.Foundation.Buffer
import BankingSystem.Requests.Refinement

/-!
# Lists in the response

Seven functions list the records that match in `resp_msg`, and `review_feedbacks` lists
what it marks.  Each of them is given here as what it does to that buffer.
-/

namespace BankingSystem

open Foundation

variable {M : Type} [Amount M]

/-! ## The list views -/

inductive ListView where
  | viewLoanStatus (userId : Nat)
  | viewFeedbackStatus (userId : Nat)
  | viewTransactionHistory (userId : Nat)
  | viewAssignedLoans (empId : Nat)
  | processLoans
  | viewNonAssignedLoans
  | viewCustomerTransactions (custId : Nat)

namespace ListView

def request : ListView → Request M
  | viewLoanStatus userId => .viewLoan userId
  | viewFeedbackStatus userId => .viewFeedback userId
  | viewTransactionHistory userId => .viewTransactions userId
  | viewAssignedLoans empId => .viewAssignedLoans empId
  | processLoans => .processLoans
  | viewNonAssignedLoans => .viewNonAssignedLoans
  | viewCustomerTransactions custId => .viewCustTransactions custId

def InRange : ListView → Prop
  | viewCustomerTransactions custId => custId < 2 ^ 32
  | _ => True

def tmpSize : ListView → Nat
  | viewLoanStatus _ | viewFeedbackStatus _ => 512
  | _ => 256

def headerOps : ListView → List BufferOp
  | viewLoanStatus _ | viewFeedbackStatus _ => [.clear]
  | viewTransactionHistory _ =>
      [.clear, .append (str "Type        | Amount   | Other Acct | Timestamp\n"),
        .append (str "------------|----------|------------|-------------------\n")]
  | viewAssignedLoans _ =>
      [.clear, .append (str "ID   | User ID | Amount   | Status\n"),
        .append (str "---- | ------- | -------- | --------\n")]
  | processLoans =>
      [.clear, .append (str "--- Pending Loan Applications (Unassigned) ---\n"),
        .append (str "ID   | User ID | Amount\n"), .append (str "---- | ------- | --------\n")]
  | viewNonAssignedLoans =>
      [.clear, .append (str "--- Non-Assigned (Pending) Loans ---\n"),
        .append (str "ID   | User ID | Amount\n"), .append (str "---- | ------- | --------\n")]
  | viewCustomerTransactions custId =>
      [.clear,
        .print (str "--- Transaction History for Customer " ++ dec custId ++ str " ---\n"),
        .appendRest (str "Type        | Amount   | Other Acct | Timestamp\n"),
        .appendRest (str "------------|----------|------------|-------------------\n")]

def header : ListView → Bytes
  | viewLoanStatus _ | viewFeedbackStatus _ => []
  | viewTransactionHistory _ => txnHeader
  | viewAssignedLoans _ =>
      str "ID   | User ID | Amount   | Status\n" ++ str "---- | ------- | -------- | --------\n"
  | processLoans => str "--- Pending Loan Applications (Unassigned) ---\n" ++ pendingColumns
  | viewNonAssignedLoans => str "--- Non-Assigned (Pending) Loans ---\n" ++ pendingColumns
  | viewCustomerTransactions custId =>
      str "--- Transaction History for Customer " ++ dec custId ++ str " ---\n" ++ txnHeader

def notice : ListView → Bytes
  | viewLoanStatus _ => str "No loan applications found for your ID."
  | viewFeedbackStatus _ => str "No feedback submitted by your ID."
  | viewTransactionHistory _ => str "No transaction history found for your ID."
  | viewAssignedLoans _ => str "No loan applications currently assigned to you."
  | processLoans => str "No pending loan applications available to process."
  | viewNonAssignedLoans => str "No non-assigned loans found."
  | viewCustomerTransactions custId =>
      str "No transaction history found for customer " ++ dec custId ++ str "."

def rows (env : Env) (db : Database M) : ListView → Option (List Bytes)
  | viewLoanStatus userId => db.loans.map fun loans =>
      (loans.filter fun loan => loan.userId = userId).map fun loan =>
        str "ID: " ++ dec loan.loanId ++ str ", Amount: " ++ Amount.fixed2 loan.amount ++
          str ", Status: " ++ statusMap loan.status ++ str "\n"
  | viewFeedbackStatus userId => db.feedback.map fun feedback =>
      (feedback.filter fun fb => fb.userId = userId).map fun fb =>
        str "ID: " ++ dec fb.fbId ++ str ", Status: " ++
          (if fb.reviewed = 0 then str "PENDING" else str "REVIEWED") ++
          str ", Msg: \"" ++ fb.message.text ++ str "\"\n"
  | viewTransactionHistory userId => db.transactions.map fun txns =>
      txns.reverse.filterMap fun tx =>
        (tx.relevance userId).map fun kind => txnLine env tx kind (historyOtherId tx kind)
  | viewAssignedLoans empId => db.loans.map fun loans =>
      (loans.filter fun loan => loan.assignedTo = empId ∧ loan.status = .assigned).map fun loan =>
        loanRow loan ++ padRight 8 (Amount.fixed2 loan.amount) ++ str " | " ++
          statusMap loan.status ++ str "\n"
  | processLoans | viewNonAssignedLoans => db.loans.map pendingRows
  | viewCustomerTransactions custId =>
      if (Table.lookup UserRec.userId custId db.userTable).all fun user => user.role ≠ .customer
      then none
      else db.transactions.map fun txns => txns.reverse.filterMap fun tx =>
        (tx.relevance custId).map fun kind => txnLine env tx kind (auditOtherId tx kind)

def ops (view : ListView) (rows : List Bytes) : List BufferOp :=
  view.headerOps ++ rows.map (fun row => .appendRest (snprintf view.tmpSize row)) ++
    if rows = [] then [.print view.notice] else []

/-! ### The buffer -/

private theorem maxMsgLen_pos : 0 < maxMsgLen := by decide

private theorem maxMsgLen_lt : maxMsgLen < 2 ^ 64 := by decide

theorem strncat_rest {respMsg : Bytes} (h : respMsg.length ≤ maxMsgLen - 1) (text : Bytes) :
    strncat respMsg text (maxMsgLen - respMsg.length - 1) =
      (respMsg ++ text).take (maxMsgLen - 1) := by
  have hroom : maxMsgLen - respMsg.length - 1 = maxMsgLen - 1 - respMsg.length := by omega
  rw [strncat, List.take_append, List.take_of_length_le h, hroom]

private theorem listing_eq_run (tmpSize : Nat) {header : Bytes}
    (hheader : header.length ≤ maxMsgLen - 1) (lines : List Bytes) :
    listing tmpSize header lines = BufferOp.run maxMsgLen header
      (lines.map fun line => .appendRest (snprintf tmpSize line)) := by
  induction lines generalizing header with
  | nil => rfl
  | cons line lines ih =>
      have happly := BufferOp.apply_appendRest maxMsgLen_pos maxMsgLen_lt
        (snprintf tmpSize line) hheader
      have hsafe := BufferOp.safe_appendRest maxMsgLen_pos maxMsgLen_lt
        (snprintf tmpSize line) hheader
      rw [List.map_cons, BufferOp.run_cons, ← ih hsafe.fits, happly, ← strncat_rest hheader]
      rfl

private theorem run_headers (before : Bytes) (texts : List Bytes) {header : Bytes}
    (hheader : header = texts.flatten) (hshort : header.length ≤ maxMsgLen - 1) :
    BufferOp.AllSafe maxMsgLen before (.clear :: texts.map .append) ∧
      BufferOp.run maxMsgLen before (.clear :: texts.map .append) = header ∧
      header.length ≤ maxMsgLen - 1 := by
  subst hheader
  have hempty : ([] : Bytes).length + texts.flatten.length ≤ maxMsgLen - 1 := by
    rwa [List.length_nil, Nat.zero_add]
  obtain ⟨hall, hrun⟩ := BufferOp.run_appends maxMsgLen_pos maxMsgLen_lt texts hempty
  exact ⟨⟨BufferOp.safe_clear before, hall⟩, hrun, hshort⟩

private theorem length_auditTitle {custId : Nat} (h : custId < 2 ^ 32) :
    (str "--- Transaction History for Customer " ++ dec custId ++ str " ---\n").length ≤ 52 := by
  have hdec : (dec custId).length ≤ 10 := by
    rw [dec, List.length_map, Nat.length_toDigits_le_iff (by decide) (by decide)]
    omega
  simp [str]
  omega

private theorem headerOps_run (view : ListView) (hrange : view.InRange) (before : Bytes) :
    BufferOp.AllSafe maxMsgLen before view.headerOps ∧
      BufferOp.run maxMsgLen before view.headerOps = view.header ∧
      view.header.length ≤ maxMsgLen - 1 := by
  cases view with
  | viewLoanStatus | viewFeedbackStatus => exact run_headers before [] rfl (Nat.zero_le _)
  | viewTransactionHistory =>
      exact run_headers before [str "Type        | Amount   | Other Acct | Timestamp\n",
        str "------------|----------|------------|-------------------\n"]
        (by simp [header, txnHeader]) (by simp [header, txnHeader, str, maxMsgLen])
  | viewAssignedLoans =>
      exact run_headers before [str "ID   | User ID | Amount   | Status\n",
        str "---- | ------- | -------- | --------\n"] (by simp [header])
        (by simp [header, str, maxMsgLen])
  | processLoans =>
      exact run_headers before [str "--- Pending Loan Applications (Unassigned) ---\n",
        str "ID   | User ID | Amount\n", str "---- | ------- | --------\n"]
        (by simp [header, pendingColumns]) (by simp [header, pendingColumns, str, maxMsgLen])
  | viewNonAssignedLoans =>
      exact run_headers before [str "--- Non-Assigned (Pending) Loans ---\n",
        str "ID   | User ID | Amount\n", str "---- | ------- | --------\n"]
        (by simp [header, pendingColumns]) (by simp [header, pendingColumns, str, maxMsgLen])
  | viewCustomerTransactions custId =>
      have htitle := length_auditTitle hrange
      have hcolumns : txnHeader.length ≤ 200 := by simp [txnHeader, str]
      simp only [headerOps, header]
      generalize str "--- Transaction History for Customer " ++ dec custId ++ str " ---\n" = title
        at htitle ⊢
      have hroom : title.length ≤ maxMsgLen - 1 := Nat.le_trans htitle (by decide)
      have hflat : [str "Type        | Amount   | Other Acct | Timestamp\n",
          str "------------|----------|------------|-------------------\n"].flatten =
            txnHeader := by
        simp [txnHeader]
      obtain ⟨hall, hrun⟩ := BufferOp.run_appendRests maxMsgLen_pos maxMsgLen_lt
        [str "Type        | Amount   | Other Acct | Timestamp\n",
          str "------------|----------|------------|-------------------\n"] hroom
      rw [hflat] at hrun
      have hwhole : BufferOp.apply maxMsgLen [] (.print title) = title :=
        List.take_of_length_le hroom
      have hlength : (title ++ txnHeader).length ≤ maxMsgLen - 1 := by
        have hsize : maxMsgLen - 1 = 1023 := rfl
        rw [List.length_append]
        omega
      refine ⟨⟨BufferOp.safe_clear before, BufferOp.safe_print _ _, ?_⟩, ?_, hlength⟩
      · rw [BufferOp.apply, hwhole]
        exact hall
      · rw [BufferOp.run_cons, BufferOp.run_cons, BufferOp.apply, hwhole]
        exact hrun.trans (List.take_of_length_le hlength)

/-! ### The message -/

private theorem ops_run (view : ListView) (hrange : view.InRange) (rows : List Bytes)
    (before : Bytes) :
    BufferOp.AllSafe maxMsgLen before (view.ops rows) ∧
    (rows ≠ [] → BufferOp.run maxMsgLen before (view.ops rows) =
      (view.header ++ (rows.map (snprintf view.tmpSize)).flatten).take (maxMsgLen - 1)) := by
  obtain ⟨hheader, hrun, hlength⟩ := headerOps_run view hrange before
  obtain ⟨hrows, hlist⟩ := BufferOp.run_appendRests maxMsgLen_pos maxMsgLen_lt
    (rows.map (snprintf view.tmpSize)) hlength
  rw [List.map_map] at hrows hlist
  have hall : BufferOp.AllSafe maxMsgLen before (view.headerOps ++
      rows.map (fun row => .appendRest (snprintf view.tmpSize row))) := by
    rw [BufferOp.allSafe_append, hrun]
    exact ⟨hheader, hrows⟩
  constructor
  · rw [ops, BufferOp.allSafe_append]
    refine ⟨hall, ?_⟩
    split
    · exact ⟨BufferOp.safe_print _ _, trivial⟩
    · trivial
  · intro hsome
    rw [ops, if_neg hsome, List.append_nil, BufferOp.run_append, hrun]
    exact hlist

private theorem reply_listingOr (view : ListView) (hrange : view.InRange) (rows : List Bytes)
    (before : Bytes) :
    (listingOr view.tmpSize view.header rows view.notice).message =
      BufferOp.run maxMsgLen before (view.ops rows) := by
  obtain ⟨-, hrun, hlength⟩ := headerOps_run view hrange before
  rw [listingOr, ops]
  cases rows with
  | nil => simp [Reply.say, respond, BufferOp.run_append, BufferOp.apply]
  | cons row rows =>
      have hlist := listing_eq_run view.tmpSize hlength (row :: rows)
      rw [if_neg (by simp), if_neg (by simp), List.append_nil, BufferOp.run_append, hrun]
      exact hlist

private theorem handle_message (view : ListView) (env : Env) (db : Database M) :
    (view.rows env db = none ∧
      ((view.request : Request M).handle env db).1.message.length ≤ maxMsgLen - 1) ∨
    ∃ rows, view.rows env db = some rows ∧ ((view.request : Request M).handle env db).1 =
      listingOr view.tmpSize view.header rows view.notice := by
  have hsay : ∀ result text, (Reply.say result text).message.length ≤ maxMsgLen - 1 := by
    simp [Reply.say, respond, snprintf]
  obtain ⟨users, accounts, transactions, loans, feedback, clock⟩ := db
  cases view with
  | viewLoanStatus | viewAssignedLoans | processLoans | viewNonAssignedLoans =>
      cases loans with
      | none => exact .inl ⟨rfl, hsay _ _⟩
      | some loans => exact .inr ⟨_, rfl, rfl⟩
  | viewFeedbackStatus =>
      cases feedback with
      | none => exact .inl ⟨rfl, hsay _ _⟩
      | some feedback => exact .inr ⟨_, rfl, rfl⟩
  | viewTransactionHistory =>
      cases transactions with
      | none => exact .inl ⟨rfl, hsay _ _⟩
      | some transactions => exact .inr ⟨_, rfl, rfl⟩
  | viewCustomerTransactions custId =>
      simp only [rows, request, Request.handle, Request.program,
        BankingSystem.viewCustomerTransactions, Db.readUser_bind, Prog.run_call]
      by_cases hrole : (Db.exec (M := M) (.readUser custId)
          ⟨users, accounts, transactions, loans, feedback, clock⟩).1.all
            (fun user => user.role ≠ .customer) = true
      · rw [if_pos hrole]
        exact .inl ⟨if_pos hrole, hsay _ _⟩
      · rw [if_neg hrole]
        cases transactions with
        | none => exact .inl ⟨if_neg hrole, hsay _ _⟩
        | some transactions => exact .inr ⟨_, if_neg hrole, rfl⟩

end ListView

/--
Whatever the files hold and however many records match, no room that a list view
computes wraps below zero and its buffer holds a string of at most 1023 bytes after every
operation; where a record matches, the message is the header and the lines of the records
in the order of the scan, cut to 1023 bytes.
-/
theorem list_views_stay_within (env : Env) (db : Database M) (view : ListView)
    (hrange : view.InRange) (before : Bytes) :
    let message := ((view.request : Request M).handle env db).1.message
    message.length ≤ maxMsgLen - 1 ∧
    ∀ rows ∈ view.rows env db,
      BufferOp.AllSafe maxMsgLen before (view.ops rows) ∧
      message = BufferOp.run maxMsgLen before (view.ops rows) ∧
      (rows ≠ [] → message =
        (view.header ++ (rows.map (snprintf view.tmpSize)).flatten).take (maxMsgLen - 1)) := by
  rcases view.handle_message env db with ⟨hnone, hlength⟩ | ⟨rows, hrows, hreply⟩
  · exact ⟨hlength, by simp [hnone]⟩
  · have hrun := view.reply_listingOr hrange rows before
    obtain ⟨hall, hlist⟩ := view.ops_run hrange rows before
    have hfirst : BufferOp.AllSafe maxMsgLen [] (view.ops rows) := (view.ops_run hrange rows []).1
    have hlength := BufferOp.length_run_le hfirst (Nat.zero_le _)
    rw [hreply]
    refine ⟨by rwa [view.reply_listingOr hrange rows []], ?_⟩
    rintro other hother
    obtain rfl : rows = other := Option.some_inj.mp (hrows.symm.trans hother)
    exact ⟨hall, hrun, fun hsome => hrun.trans (hlist hsome)⟩

def complaints : Database ℚ :=
  { Database.empty fun _ => 1 with
    feedback := some [⟨1, 1001, .ofText (str "Slow"), 0, .zero _, 1⟩,
      ⟨2, 1002, .ofText (str "Closed"), 1, .zero _, 1⟩] }

theorem list_views_stay_within_complaints :
    ((ListView.viewFeedbackStatus 1002).request.handle .plain complaints).1.message =
      str "ID: 2, Status: REVIEWED, Msg: \"Closed\"\n" := by
  have hview := (list_views_stay_within .plain complaints (.viewFeedbackStatus 1002) trivial []).2
    [str "ID: 2, Status: REVIEWED, Msg: \"Closed\"\n"] (by decide +kernel)
  rw [hview.2.2 (by simp)]
  decide +kernel

/-! ## Reviewed feedback -/

/-- The call changes no flag from 0 to 1 without showing the line of the record. -/
def ShowsMarked (env : Env) (db : Database M) : Prop :=
  ∀ (i : Nat) fb fb', db.feedbackTable[i]? = some fb →
    ((Request.reviewFeedback : Request M).handle env db).2.feedbackTable[i]? = some fb' →
    fb.reviewed = 0 → fb'.reviewed = 1 →
      reviewLine fb <:+: ((Request.reviewFeedback : Request M).handle env db).1.message

def unreviewed (feedback : List FeedbackRec) : List FeedbackRec :=
  feedback.filter fun fb => fb.reviewed = 0

/-- The header and the whole lines of some records. -/
def reviewText (feedback : List FeedbackRec) : Bytes :=
  str "--- Unreviewed Feedback ---\n" ++ feedback.flatMap reviewLine

/--
The list of the unreviewed records comes to the end of each record within 1023 bytes, or
shows the same line at an earlier place that ends within 1023 bytes.
-/
def ListsInTime (feedback : List FeedbackRec) : Prop :=
  ∀ first fb rest, unreviewed feedback = first ++ fb :: rest →
    (reviewText (first ++ [fb])).length ≤ maxMsgLen - 1 ∨
    ∃ k, k < (reviewText first).length ∧ k + (reviewLine fb).length ≤ maxMsgLen - 1 ∧
      reviewLine fb <+: (reviewText (unreviewed feedback)).drop k

def FeedbackRec.InRange (fb : FeedbackRec) : Prop := fb.fbId < 2 ^ 64 ∧ fb.userId < 2 ^ 32

private theorem snprintf_reviewLine {fb : FeedbackRec} (h : fb.InRange) :
    snprintf 600 (reviewLine fb) = reviewLine fb := by
  have hid : (dec fb.fbId).length ≤ 20 := by
    rw [dec, List.length_map, Nat.length_toDigits_le_iff (by decide) (by decide)]
    exact Nat.lt_trans h.1 (by decide)
  have huser : (dec fb.userId).length ≤ 10 := by
    rw [dec, List.length_map, Nat.length_toDigits_le_iff (by decide) (by decide)]
    exact Nat.lt_trans h.2 (by decide)
  refine List.take_of_length_le ?_
  simp [reviewLine, str]
  omega

private theorem reviewFeedback_message (env : Env) {db : Database M} {feedback : List FeedbackRec}
    (hfeedback : db.feedback = some feedback) (hrange : ∀ fb ∈ feedback, fb.InRange)
    (hsome : unreviewed feedback ≠ []) :
    ∃ closing, ((Request.reviewFeedback : Request M).handle env db).1.message =
      (reviewText (unreviewed feedback) ++ closing).take (maxMsgLen - 1) := by
  have hheader : (str "--- Unreviewed Feedback ---\n").length ≤ maxMsgLen - 1 := by decide
  have hcut : ((unreviewed feedback).map reviewLine).map (snprintf 600) =
      (unreviewed feedback).map reviewLine := by
    rw [List.map_map]
    exact List.map_congr_left fun fb hfb =>
      snprintf_reviewLine (hrange fb (List.mem_of_mem_filter hfb))
  have hlist : listing 600 (str "--- Unreviewed Feedback ---\n")
      ((unreviewed feedback).map reviewLine) =
        (reviewText (unreviewed feedback)).take (maxMsgLen - 1) := by
    have hrun := (BufferOp.run_appendRests ListView.maxMsgLen_pos ListView.maxMsgLen_lt
      (((unreviewed feedback).map reviewLine).map (snprintf 600)) hheader).2
    rw [List.map_map] at hrun
    rw [ListView.listing_eq_run 600 hheader]
    refine hrun.trans ?_
    rw [hcut, reviewText, List.flatMap_def]
  refine ⟨snprintf 100 (str "\n" ++ dec (unreviewed feedback).length ++
    str " feedback(s) marked as reviewed."), ?_⟩
  have hnonempty : (feedback.filter fun fb => fb.reviewed = 0).isEmpty = false := by
    rw [List.isEmpty_eq_false_iff]
    exact hsome
  simp only [Request.handle, Request.program, reviewFeedbacks, Db.markReviewed_bind, Prog.run_call,
    Db.exec, hfeedback, hnonempty, Bool.false_eq_true, if_false, Prog.pure_eq, Prog.run_ret]
  rw [← unreviewed, hlist, ListView.strncat_rest (List.length_take_le _ _), take_append_cut]

private theorem mem_unreviewed {feedback : List FeedbackRec} {fb : FeedbackRec} :
    fb ∈ unreviewed feedback ↔ fb ∈ feedback ∧ fb.reviewed = 0 := by
  simp [unreviewed]

private theorem showsMarked_iff (env : Env) {db : Database M} {feedback : List FeedbackRec}
    (hfeedback : db.feedback = some feedback) :
    ShowsMarked env db ↔ ∀ fb ∈ unreviewed feedback,
      reviewLine fb <:+: ((Request.reviewFeedback : Request M).handle env db).1.message := by
  have hafter : ((Request.reviewFeedback : Request M).handle env db).2.feedbackTable =
      feedback.map FeedbackRec.markReviewed := by
    simp only [Request.handle, Request.program, reviewFeedbacks, Db.markReviewed_bind,
      Prog.run_call, Db.exec, hfeedback]
    split <;> rfl
  have hbefore : db.feedbackTable = feedback := by rw [Database.feedbackTable, hfeedback]; rfl
  rw [ShowsMarked, hafter, hbefore]
  constructor
  · intro h fb hfb
    obtain ⟨hmem, hzero⟩ := mem_unreviewed.mp hfb
    obtain ⟨i, hi⟩ := List.mem_iff_getElem?.mp hmem
    refine h i fb { fb with reviewed := 1 } hi ?_ hzero rfl
    rw [List.getElem?_map, hi, Option.map_some, FeedbackRec.markReviewed, if_pos hzero]
  · intro h i fb fb' hfb _ hzero _
    exact h fb (mem_unreviewed.mpr ⟨List.mem_of_getElem? hfb, hzero⟩)

/-- A line of a text can be found in the cut text at its own place or before it. -/
private theorem infix_take_iff (before line after closing : Bytes) (n : Nat) :
    line <:+: (before ++ line ++ after ++ closing).take n ↔
      before.length + line.length ≤ n ∨
        ∃ k, k < before.length ∧ k + line.length ≤ n ∧
          line <+: (before ++ line ++ after).drop k := by
  have hinfix : ∀ front : Bytes, front ++ line <+: before ++ line ++ after ++ closing →
      (front ++ line).length ≤ n → line <:+: (before ++ line ++ after ++ closing).take n := by
    intro front hfront hlength
    obtain ⟨rest, hrest⟩ := List.prefix_take_iff.mpr ⟨hfront, hlength⟩
    exact ⟨front, rest, hrest⟩
  constructor
  · rintro ⟨front, rest, htake⟩
    have hlength := congrArg List.length htake
    simp only [List.length_append, List.length_take] at hlength
    by_cases hplace : before.length + line.length ≤ n
    · exact .inl hplace
    · refine .inr ⟨front.length, by omega, by omega, ?_⟩
      have htext : (before ++ line ++ after).take n = front ++ line ++ rest := by
        have hshort : n ≤ (before ++ line ++ after).length := by
          simp only [List.length_append]
          omega
        rw [htake, List.take_append_of_le_length hshort]
      refine ⟨rest ++ (before ++ line ++ after).drop n, ?_⟩
      conv_rhs => rw [← List.take_append_drop n (before ++ line ++ after), htext]
      simp
  · rintro (hplace | ⟨k, hk, hlength, rest, hrest⟩)
    · refine hinfix before ⟨after ++ closing, by simp⟩ ?_
      rwa [List.length_append]
    · refine hinfix ((before ++ line ++ after).take k) ⟨rest ++ closing, ?_⟩ ?_
      · rw [List.append_assoc _ line, ← List.append_assoc line, hrest, ← List.append_assoc,
          List.take_append_drop]
      · simp only [List.length_append, List.length_take]
        omega

/--
`review_feedbacks` shows every record that it marks if and only if its list comes to the
end of each within the response, apart from lines that the list also shows earlier.
-/
theorem marked_feedback_shown_iff (env : Env) (db : Database M)
    (hrange : ∀ fb ∈ db.feedbackTable, fb.InRange) :
    ShowsMarked env db ↔ ListsInTime db.feedbackTable := by
  cases hfeedback : db.feedback with
  | none =>
      have hempty : db.feedbackTable = [] := by rw [Database.feedbackTable, hfeedback]; rfl
      rw [hempty]
      refine iff_of_true ?_ ?_
      · intro i fb fb' hfb
        simp [hempty] at hfb
      · intro first fb rest hsplit
        simp [unreviewed] at hsplit
  | some feedback =>
      have htable : db.feedbackTable = feedback := by rw [Database.feedbackTable, hfeedback]; rfl
      rw [htable] at hrange ⊢
      rw [showsMarked_iff env hfeedback]
      have hplace : ∀ first fb rest, unreviewed feedback = first ++ fb :: rest →
          (reviewLine fb <:+: ((Request.reviewFeedback : Request M).handle env db).1.message ↔
            (reviewText (first ++ [fb])).length ≤ maxMsgLen - 1 ∨
            ∃ k, k < (reviewText first).length ∧ k + (reviewLine fb).length ≤ maxMsgLen - 1 ∧
              reviewLine fb <+: (reviewText (unreviewed feedback)).drop k) := by
        intro first fb rest hsplit
        obtain ⟨closing, hmessage⟩ := reviewFeedback_message env hfeedback hrange (by simp [hsplit])
        have htext : reviewText (unreviewed feedback) =
            reviewText first ++ reviewLine fb ++ rest.flatMap reviewLine := by
          simp [reviewText, hsplit]
        have hend : (reviewText (first ++ [fb])).length =
            (reviewText first).length + (reviewLine fb).length := by
          simp [reviewText]
          omega
        rw [hmessage, htext, hend]
        exact infix_take_iff ..
      constructor
      · intro h first fb rest hsplit
        exact (hplace first fb rest hsplit).mp (h fb (by simp [hsplit]))
      · intro h fb hfb
        obtain ⟨first, rest, hsplit⟩ := List.append_of_mem hfb
        exact (hplace first fb rest hsplit).mpr (h first fb rest hsplit)

private theorem listsInTime_of_short {feedback : List FeedbackRec}
    (h : (reviewText (unreviewed feedback)).length ≤ maxMsgLen - 1) : ListsInTime feedback := by
  intro first fb rest hsplit
  rw [hsplit] at h
  simp only [reviewText, List.flatMap_append, List.flatMap_cons, List.flatMap_nil,
    List.length_append, List.length_nil] at h ⊢
  exact .inl (by omega)

theorem marked_feedback_shown_short : ShowsMarked .plain complaints := by
  have hrange : ∀ fb ∈ complaints.feedbackTable, fb.InRange := by
    simp [complaints, Database.feedbackTable, FeedbackRec.InRange]
  exact (marked_feedback_shown_iff .plain complaints hrange).mpr
    (listsInTime_of_short (by decide +kernel))

def eightLong : List FeedbackRec :=
  (List.range' 1 8).map fun i => ⟨i, 1001, .ofText (List.replicate 100 97), 0, .zero _, 1⟩

private theorem eightLong_inRange : ∀ fb ∈ eightLong, fb.InRange := by
  intro fb hfb
  obtain ⟨i, hi, rfl⟩ := List.mem_map.mp hfb
  rw [List.mem_range'_1] at hi
  simp only [FeedbackRec.InRange]
  omega

/-- The last one is marked, and its line is cut off in the response. -/
theorem marked_unseen :
    ¬ ∀ db : Database ℚ, (∀ fb ∈ db.feedbackTable, fb.InRange) → ShowsMarked .plain db := by
  intro h
  have hshows := h { Database.empty fun _ => 1 with feedback := some eightLong } eightLong_inRange
  have hline := hshows 7 ⟨8, 1001, .ofText (List.replicate 100 97), 0, .zero _, 1⟩
    ⟨8, 1001, .ofText (List.replicate 100 97), 1, .zero _, 1⟩ (by decide +kernel)
    (by decide +kernel) rfl rfl
  exact absurd hline (by decide +kernel)

end BankingSystem
