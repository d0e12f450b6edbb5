import BankingSystem.Frontend.Agreement
import BankingSystem.Server.LoginReply

/-!
# The reply to a login

`login_user` copies the first name into an array that its caller does not initialise,
and the handler prints that array; the client scans the reply.
-/

namespace BankingSystem

open Foundation

variable {κ M : Type} [DecidableEq κ] [Amount M]

/-! ## What the client scans -/

private theorem intOfId_bounds (userId : Nat) :
    -2 ^ 31 ≤ intOfId userId ∧ intOfId userId < 2 ^ 31 := by
  have hbounds : ∀ n : Int, -2147483648 ≤ n.bmod 4294967296 ∧ n.bmod 4294967296 < 2147483648 := by
    intro n
    rw [Int.bmod_def]
    omega
  exact hbounds userId

private theorem length_replyStart (n : Int) (role : Bytes) :
    (replyStart n role).length = (decInt n).length + role.length + 10 := by
  simp [replyStart, str]
  omega

private theorem successReply_text (n : Int) (role name : Bytes) :
    str "SUCCESS " ++ decInt n ++ str " " ++ role ++ str "|" ++ name =
      replyStart n role ++ name := by
  simp [replyStart, str]

private theorem successReply_message {role : Bytes} (hrole : IsWord role) (userId : Nat)
    (name : Bytes) :
    ∃ k, (successReply userId role name).message =
      replyStart (intOfId userId) role ++ name.take (64 + k) := by
  have hid := length_decInt_le (intOfId_bounds userId).1 (intOfId_bounds userId).2
  have hlength := length_replyStart (intOfId userId) role
  have hshort := hrole.2.1
  have hcut : 1023 - (replyStart (intOfId userId) role).length =
      64 + (959 - (replyStart (intOfId userId) role).length) := by omega
  refine ⟨959 - (replyStart (intOfId userId) role).length, ?_⟩
  have hmessage : (successReply userId role name).message =
      (replyStart (intOfId userId) role ++ name).take 1023 := by
    simp only [successReply, Response.ok, respond, snprintf, successReply_text]
    congr 1
  rw [hmessage, List.take_append, List.take_of_length_le (by omega), hcut]

/-- The client scans the reply to the user id, the role and the first name. -/
def Recovers (message : Bytes) (user : UserRec) : Prop :=
  parseReply message = some (intOfId user.userId, roleString user.role, user.firstName.text)

private theorem scannedInt_intOfId (userId : Nat) : scannedInt (intOfId userId) = intOfId userId :=
  scannedInt_eq (intOfId_bounds userId).1 (intOfId_bounds userId).2

private theorem parseReply_success {role : Bytes} (hrole : IsWord role) (userId : Nat)
    (name : Bytes) {wanted : Bytes} (hne : wanted ≠ []) :
    ∃ k, parseReply (successReply userId role name).message = some (intOfId userId, role, wanted) ↔
      (name.take (64 + k)).takeWhile (· ≠ 10) = wanted := by
  obtain ⟨k, hk⟩ := successReply_message hrole userId name
  refine ⟨k, ?_⟩
  rw [hk, parseReply_start hrole, scannedInt_intOfId]
  generalize (name.take (64 + k)).takeWhile (· ≠ 10) = scanned
  by_cases hnil : scanned = []
  · rw [if_pos hnil, hnil]
    simp [hne.symm]
  · rw [if_neg hnil]
    simp

/-! ## The round trip -/

variable {env : Env} {name : CharArray maxFnameLen} {beyond : Bytes} {c : κ}
  {username password : Bytes} {s : ServerState κ M} {user : UserRec}

private theorem scanned_behind {name : Bytes} (hline : ∀ b ∈ name, decide (b ≠ 10) = true)
    (hfull : name.length = 63) (last : UInt8) (beyond : Bytes) (k : Nat) :
    ((name ++ cstr (last :: beyond)).take (64 + k)).takeWhile (· ≠ 10) = name ↔
      last = 0 ∨ last = 10 := by
  have hcount : 64 + k - name.length = k + 1 := by omega
  rw [List.take_append, List.take_of_length_le (by omega), hcount,
    List.takeWhile_append_of_pos hline, List.append_right_eq_self]
  by_cases hzero : last = 0
  · simp [cstr, hzero]
  · by_cases hbreak : last = 10 <;> simp [cstr, hzero, hbreak]

/--
The client recovers the user id, the role and the first name from the reply to a
successful login if and only if the name leaves room for its NUL in the array, or the
last byte that the array held is a NUL or a line break.
-/
theorem login_reply_round_trips_iff (haccepts : Accepts env username password s.db user)
    (hsuccess : (handleLogin env name beyond c username password s).1.Succeeds)
    (hends : user.firstName.Ends) (hne : user.firstName.text ≠ [])
    (hspace : HasNoSpace user.firstName.text) :
    Recovers (handleLogin env name beyond c username password s).1.message user ↔
      user.firstName.text.length < maxFnameLen - 1 ∨
        name.bytes[maxFnameLen - 1]? = some 0 ∨ name.bytes[maxFnameLen - 1]? = some 10 := by
  obtain ⟨k, hrecovers⟩ := parseReply_success (roleString_isWord user.role) user.userId
    ((name.clear.strncpy user.firstName.text).printed beyond) hne
  rw [handleLogin_message haccepts hsuccess, Recovers, hrecovers]
  have hline : ∀ b ∈ user.firstName.text, decide (b ≠ 10) = true := by
    intro b hb
    have hblank := hspace b hb
    by_cases hbreak : b = 10
    · subst hbreak
      cases hblank
    · simpa using hbreak
  have hcstr := user.firstName.cstr_text
  have hlength : user.firstName.text.length ≤ maxFnameLen - 1 :=
    Nat.le_sub_one_of_lt (CharArray.ends_iff_length_text.mp hends)
  by_cases hfull : user.firstName.text.length = maxFnameLen - 1
  · obtain ⟨last, hlast, hprinted⟩ := printed_full name.clear beyond (by decide) hcstr hfull
    rw [last_clear name (by decide)] at hlast
    rw [hprinted, scanned_behind hline hfull, hlast, hfull]
    simp
  · have hshort := Nat.lt_of_le_of_ne hlength hfull
    have hcloses : name.clear.Closes user.firstName.text := by
      intro hlong
      rw [hcstr] at hlong
      exact absurd hlong hfull
    have htake : user.firstName.text.take (64 + k) = user.firstName.text :=
      List.take_of_length_le (Nat.le_trans hlength (Nat.le_add_right_of_le (by decide)))
    rw [printed_copy hends hcloses, htake, List.takeWhile_eq_self_iff.mpr hline]
    simp [hshort]

def garbage : CharArray maxFnameLen := ⟨List.replicate maxFnameLen 88, List.length_replicate⟩

/-- A short name is recovered whatever the array held. -/
theorem login_reply_round_trips_ann :
    Recovers (handleLogin .plain garbage [88] (0 : Fin 1) (str "ann") (str "pw")
      (.init withAnn)).1.message ann := by
  have haccepts : Accepts .plain (str "ann") (str "pw") withAnn ann :=
    ⟨by decide +kernel, by decide +kernel, rfl⟩
  have hends : ann.firstName.Ends := CharArray.ends_iff_length_text.mpr (by decide +kernel)
  exact (login_reply_round_trips_iff haccepts (by decide +kernel) hends (by decide +kernel)
    (by decide +kernel)).mpr (.inl (by decide +kernel))

def longAnn : UserRec := { ann with firstName := .ofText (List.replicate 63 65) }

/-- The client takes what the array held for the end of her name. -/
theorem long_name_not_recovered :
    ¬ ∀ (name : CharArray maxFnameLen) (beyond : Bytes) (user : UserRec)
        (s : ServerState (Fin 1) ℚ),
      Accepts .plain (str "ann") (str "pw") s.db user →
      (handleLogin .plain name beyond 0 (str "ann") (str "pw") s).1.Succeeds →
      user.firstName.Terminated → user.firstName.text ≠ [] → HasNoSpace user.firstName.text →
      Recovers (handleLogin .plain name beyond 0 (str "ann") (str "pw") s).1.message user := by
  intro h
  have haccepts : Accepts .plain (str "ann") (str "pw")
      ({ withAnn with users := some [longAnn] } : Database ℚ) longAnn :=
    ⟨by decide +kernel, by decide +kernel, rfl⟩
  have hrecovers := h garbage [] longAnn (.init { withAnn with users := some [longAnn] })
    haccepts (by decide +kernel) ((CharArray.terminated_zero (by decide)).strncpy _)
    (by decide +kernel) (by decide +kernel)
  have hother : parseReply (handleLogin .plain garbage [] (0 : Fin 1) (str "ann") (str "pw")
      (.init { withAnn with users := some [longAnn] })).1.message ≠
        some (intOfId longAnn.userId, roleString longAnn.role, longAnn.firstName.text) := by
    decide +kernel
  exact hother hrecovers

end BankingSystem
