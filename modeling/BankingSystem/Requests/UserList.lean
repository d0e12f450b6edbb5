import BankingSystem.Requests.Listings

/-!
# The list of users

`list_all_users` keeps the length of its list itself.  A line that would not fit is not
written; a marker takes its place, as much of it as there is room for.
-/

namespace BankingSystem

open Foundation

variable {M : Type} [Amount M]

def userListHeader : Bytes :=
  str "--- User List ---\n" ++ str "ID   | Username        | Role\n" ++
    str "---- | --------------- | --------\n"

def truncationMarker : Bytes := str "... (list truncated) ...\n"

def userLine (user : UserRec) : Bytes :=
  padRight 4 (dec user.userId) ++ str " | " ++ padRight 15 user.username.text ++ str " | " ++
    getRoleStrForList user.role ++ str "\n"

def listedUsers (users : List UserRec) : List UserRec :=
  users.filter fun user => user.role ≠ .admin

def userListText (users : List UserRec) : Bytes := userListHeader ++ users.flatMap userLine

/--
The message ends within its buffer and is the header with whole lines of listed users in
file order; it has a line for each of them or ends with the whole marker.
-/
def TellsAll (users : List UserRec) (message : Bytes) : Prop :=
  message.length < maxMsgLen ∧
  ∃ shown ending, shown.Sublist (listedUsers users) ∧ message = userListText shown ++ ending ∧
    (ending = [] ∨ ending = truncationMarker) ∧
    (shown = listedUsers users ∨ ending = truncationMarker)

/-- Where the first line does not fit any more, the marker does. -/
def MarkerFits (users : List UserRec) : Prop :=
  ∀ first user rest, listedUsers users = first ++ user :: rest →
    (userListText first).length < maxMsgLen →
    maxMsgLen ≤ (userListText (first ++ [user])).length →
    (userListText first).length + truncationMarker.length < maxMsgLen

/-! ## Lines -/

private theorem userListText_append (first second : List UserRec) :
    userListText (first ++ second) = userListText first ++ second.flatMap userLine := by
  simp [userListText]

private theorem snprintf_userLine {user : UserRec} (h : user.userId < 2 ^ 32) :
    snprintf 256 (userLine user) = userLine user := by
  have hid := length_dec_le h
  have hname := user.username.length_text_le
  have hrole : (getRoleStrForList user.role).length ≤ 8 := by cases user.role <;> decide
  have hmax : maxUsernameLen = 64 := rfl
  refine List.take_of_length_le ?_
  simp only [userLine, padRight, str, List.length_append, List.length_replicate, List.length_map]
  have hblank : " | ".toList.length = 3 := rfl
  have hbreak : "\n".toList.length = 1 := rfl
  omega

private theorem exists_last_two (users : List UserRec) :
    ∃ front c, userListText users = front ++ [c, 10] ∧ c ≠ 46 := by
  rcases users.eq_nil_or_concat' with rfl | ⟨users, user, rfl⟩
  · exact ⟨_, 45, (List.take_append_drop 80 _).symm.trans rfl, by decide⟩
  · have hrole : ∃ letters c, getRoleStrForList user.role = letters ++ [c] ∧ c ≠ 46 := by
      cases user.role with
      | customer => exact ⟨str "CUSTOME", 82, rfl, by decide⟩
      | employee => exact ⟨str "EMPLOYE", 69, rfl, by decide⟩
      | manager => exact ⟨str "MANAGE", 82, rfl, by decide⟩
      | admin => exact ⟨str "ADMI", 78, rfl, by decide⟩
    obtain ⟨letters, c, hletters, hc⟩ := hrole
    refine ⟨userListText users ++ (padRight 4 (dec user.userId) ++ str " | " ++
      padRight 15 user.username.text ++ str " | " ++ letters), c, ?_, hc⟩
    have hbreak : str "\n" = [10] := rfl
    rw [userListText_append, List.flatMap_singleton, userLine, hletters, hbreak]
    simp only [List.append_assoc]
    rfl

/-! ## The loop -/

private theorem listUsersLoop_cons {user : UserRec} (hrange : user.userId < 2 ^ 32)
    (hlisted : user.role ≠ .admin) {respMsg : Bytes} (hshort : respMsg.length < maxMsgLen)
    (users : List UserRec) :
    listUsersLoop respMsg (user :: users) =
      if (respMsg ++ userLine user).length < maxMsgLen then
        listUsersLoop (respMsg ++ userLine user) users
      else (respMsg ++ truncationMarker).take (maxMsgLen - 1) := by
  have hroom : respMsg.length ≤ maxMsgLen - 1 := by omega
  have hturn : listUsersLoop respMsg (user :: users) =
      if respMsg.length + (snprintf 256 (userLine user)).length < maxMsgLen then
        listUsersLoop (strncat respMsg (snprintf 256 (userLine user))
          (maxMsgLen - respMsg.length - 1)) users
      else strncat respMsg truncationMarker (maxMsgLen - respMsg.length - 1) :=
    if_neg hlisted
  rw [hturn, snprintf_userLine hrange, ListView.strncat_rest hroom, ListView.strncat_rest hroom,
    List.length_append]
  split
  · have hwhole : (respMsg ++ userLine user).length ≤ maxMsgLen - 1 := by
      rw [List.length_append]
      omega
    rw [List.take_of_length_le hwhole]
  · rfl

/-- Either every line is there, or the marker stands where the first one does not fit. -/
private theorem listUsersLoop_cases {users : List UserRec}
    (hrange : ∀ user ∈ users, user.userId < 2 ^ 32)
    {respMsg : Bytes} (hshort : respMsg.length < maxMsgLen) :
    (respMsg ++ (listedUsers users).flatMap userLine).length < maxMsgLen ∧
      listUsersLoop respMsg users = respMsg ++ (listedUsers users).flatMap userLine ∨
    ∃ first user rest, listedUsers users = first ++ user :: rest ∧
      (respMsg ++ first.flatMap userLine).length < maxMsgLen ∧
      maxMsgLen ≤ (respMsg ++ (first ++ [user]).flatMap userLine).length ∧
      listUsersLoop respMsg users =
        (respMsg ++ first.flatMap userLine ++ truncationMarker).take (maxMsgLen - 1) := by
  induction users generalizing respMsg with
  | nil => exact .inl ⟨by simpa [listedUsers] using hshort, by simp [listedUsers, listUsersLoop]⟩
  | cons user users ih =>
      have hrest := fun user hmem => hrange user (List.mem_cons_of_mem _ hmem)
      by_cases hadmin : user.role = .admin
      · have hlisted : listedUsers (user :: users) = listedUsers users := by
          simp [listedUsers, hadmin]
        rw [hlisted, listUsersLoop, if_pos hadmin]
        exact ih hrest hshort
      · have hlisted : listedUsers (user :: users) = user :: listedUsers users := by
          simp [listedUsers, hadmin]
        rw [hlisted, listUsersLoop_cons (hrange user List.mem_cons_self) hadmin hshort]
        by_cases hfits : (respMsg ++ userLine user).length < maxMsgLen
        · rw [if_pos hfits]
          rcases ih hrest hfits with hall | ⟨first, stop, rest, hsplit, hfirst, hstop, hloop⟩
          · exact .inl (by simpa [List.append_assoc] using hall)
          · refine .inr ⟨user :: first, stop, rest, by rw [hsplit]; rfl, ?_, ?_, ?_⟩
            · simpa [Nat.add_assoc] using hfirst
            · simpa [Nat.add_assoc] using hstop
            · simpa using hloop
        · rw [if_neg hfits]
          exact .inr ⟨[], user, listedUsers users, rfl, by simpa using hshort,
            by simpa using hfits, by simp⟩

private theorem listAllUsers_message (env : Env) {db : Database M} {users : List UserRec}
    (husers : db.users = some users) (hsome : listedUsers users ≠ []) :
    ((Request.listUsers : Request M).handle env db).1.message =
      listUsersLoop userListHeader users := by
  have hnotall : ¬ users.all (fun user => user.role = .admin) = true := by
    intro hall
    refine hsome (List.filter_eq_nil_iff.mpr fun user hmem => ?_)
    simpa using List.all_eq_true.mp hall user hmem
  simp only [Request.handle, Request.program, listAllUsers, Db.scanUsers_bind, Prog.run_call,
    Db.exec, husers, hnotall, Prog.pure_eq]
  rfl

/-! ## When the list tells all -/

private theorem length_userListText_le {first second : List UserRec} (h : first <+: second) :
    (userListText first).length ≤ (userListText second).length := by
  obtain ⟨rest, rfl⟩ := h
  rw [userListText_append, List.length_append]
  omega

private theorem stop_unique {users first first' rest rest' : List UserRec} {user user' : UserRec}
    (hsplit : users = first ++ user :: rest) (hsplit' : users = first' ++ user' :: rest')
    (hfirst : (userListText first).length < maxMsgLen)
    (hstop : maxMsgLen ≤ (userListText (first ++ [user])).length)
    (hfirst' : (userListText first').length < maxMsgLen)
    (hstop' : maxMsgLen ≤ (userListText (first' ++ [user'])).length) : first = first' := by
  have hprefix : first ++ [user] <+: users := ⟨rest, by simp [hsplit]⟩
  have hprefix' : first' ++ [user'] <+: users := ⟨rest', by simp [hsplit']⟩
  have hbegin : first <+: users := ⟨user :: rest, hsplit.symm⟩
  have hbegin' : first' <+: users := ⟨user' :: rest', hsplit'.symm⟩
  have hle : ¬ first.length < first'.length := by
    intro hlt
    have hshort : first ++ [user] <+: first' :=
      List.prefix_of_prefix_length_le hprefix hbegin' (by simp; omega)
    have := length_userListText_le hshort
    omega
  have hge : ¬ first'.length < first.length := by
    intro hlt
    have hshort : first' ++ [user'] <+: first :=
      List.prefix_of_prefix_length_le hprefix' hbegin (by simp; omega)
    have := length_userListText_le hshort
    omega
  exact (List.prefix_of_prefix_length_le hbegin hbegin' (by omega)).eq_of_length (by omega)

private theorem not_tellsAll_of_part {users first rest : List UserRec} {user : UserRec}
    (hsplit : listedUsers users = first ++ user :: rest)
    (hfirst : (userListText first).length < maxMsgLen)
    (hstop : maxMsgLen ≤ (userListText (first ++ [user])).length)
    (hpart : maxMsgLen ≤ (userListText first).length + truncationMarker.length) :
    ¬ TellsAll users ((userListText first ++ truncationMarker).take (maxMsgLen - 1)) := by
  rintro ⟨-, shown, ending, hsub, hmessage, hending, hcomplete⟩
  obtain ⟨front, c, htext, hc⟩ := exists_last_two first
  obtain ⟨front', c', hshown, hc'⟩ := exists_last_two shown
  have hlast : (userListText shown ++ ending).getLast? = some 10 := by
    rcases hending with rfl | rfl
    · simp [hshown]
    · simp [truncationMarker, str]
  have hmarker : truncationMarker.length = 25 := by decide
  have hcut : (userListText first ++ truncationMarker).take (maxMsgLen - 1) = userListText first ++
      truncationMarker.take (maxMsgLen - 1 - (userListText first).length) := by
    rw [List.take_append, List.take_of_length_le (by omega)]
  by_cases hnone : maxMsgLen - 1 - (userListText first).length = 0
  · -- the list fills the buffer without any of the marker
    rw [hcut, hnone, List.take_zero, List.append_nil] at hmessage
    rcases hcomplete with rfl | rfl
    · have hall : (userListText (first ++ [user])).length ≤
          (userListText (listedUsers users)).length :=
        length_userListText_le ⟨rest, by simp [hsplit]⟩
      have hlength := congrArg List.length hmessage
      rw [List.length_append] at hlength
      omega
    · have hend : (userListText first).dropLast.getLast? =
          (userListText shown ++ truncationMarker).dropLast.getLast? := by rw [hmessage]
      simp [htext, truncationMarker, str] at hend
      exact hc hend
  · -- the message ends inside the marker
    generalize hn : maxMsgLen - 1 - (userListText first).length = n at hcut hnone
    have hne : truncationMarker.take n ≠ [] := by
      intro hnil
      have hlength := congrArg List.length hnil
      rw [List.length_take, hmarker, List.length_nil] at hlength
      omega
    have hpiece : truncationMarker.take n = (truncationMarker.take 24).take n := by
      rw [List.take_take, Nat.min_eq_left (by omega)]
    rw [← hmessage, hcut, List.getLast?_append_of_ne_nil _ hne, hpiece] at hlast
    exact absurd (List.mem_of_mem_take (List.mem_of_getLast? hlast)) (by decide)

private theorem tellsAll_iff {users : List UserRec}
    (hrange : ∀ user ∈ users, user.userId < 2 ^ 32) :
    TellsAll users (listUsersLoop userListHeader users) ↔ MarkerFits users := by
  have hheader : userListHeader.length < maxMsgLen := by decide
  rcases listUsersLoop_cases hrange hheader with
    ⟨hshort, hloop⟩ | ⟨first, user, rest, hsplit, hfirst, hstop, hloop⟩
  · refine iff_of_true ?_ ?_
    · rw [hloop]
      exact ⟨hshort, listedUsers users, [], List.Sublist.refl _, by simp [userListText],
        .inl rfl, .inl rfl⟩
    · intro first user rest hsplit _ hstop
      have hall : (userListText (first ++ [user])).length ≤
          (userListText (listedUsers users)).length :=
        length_userListText_le ⟨rest, by simp [hsplit]⟩
      have hlength : (userListText (listedUsers users)).length < maxMsgLen := hshort
      omega
  · rw [hloop]
    constructor
    · intro htells first' user' rest' hsplit' hfirst' hstop'
      obtain rfl := stop_unique hsplit' hsplit hfirst' hstop' hfirst hstop
      by_contra hroom
      exact not_tellsAll_of_part hsplit hfirst hstop (by omega) htells
    · intro hfits
      have hroom := hfits first user rest hsplit hfirst hstop
      have hwhole : (userListText first ++ truncationMarker).take (maxMsgLen - 1) =
          userListText first ++ truncationMarker := by
        refine List.take_of_length_le ?_
        rw [List.length_append]
        omega
      change TellsAll users ((userListText first ++ truncationMarker).take (maxMsgLen - 1))
      rw [hwhole]
      refine ⟨by rwa [List.length_append], first, truncationMarker, ?_, rfl, .inr rfl, .inr rfl⟩
      rw [hsplit]
      exact List.sublist_append_left first (user :: rest)

/--
With at least one user to list, the list is complete or says that it is not, if and only
if the marker fits where the first line does not.
-/
theorem user_list_honest_iff (env : Env) (db : Database M) {users : List UserRec}
    (husers : db.users = some users) (hrange : ∀ user ∈ users, user.userId < 2 ^ 32)
    (hsome : listedUsers users ≠ []) :
    TellsAll users ((Request.listUsers : Request M).handle env db).1.message ↔
      MarkerFits users := by
  rw [listAllUsers_message env husers hsome]
  exact tellsAll_iff hrange

def customersNamed (name : String) (n : Nat) : List UserRec :=
  (List.range' 1001 n).map fun userId =>
    { UserRec.zero with userId, username := .ofText (str name) }

private theorem customersNamed_inRange {name : String} {n : Nat} (h : n ≤ 1000) :
    ∀ user ∈ customersNamed name n, user.userId < 2 ^ 32 := by
  intro user huser
  obtain ⟨i, hi, rfl⟩ := List.mem_map.mp huser
  rw [List.mem_range'_1] at hi
  simp only
  omega

/-- Names of 16 letters, each a letter wider than the column of the list. -/
def sixteenLetters : List UserRec := customersNamed "bartholomewsmith" 28

/-- After 26 lines of 35 bytes the next one does not fit, and the marker does. -/
theorem user_list_honest_cut :
    TellsAll sixteenLetters ((Request.listUsers : Request ℚ).handle .plain
      { Database.empty fun _ => 1 with users := some sixteenLetters }).1.message := by
  have hrange : ∀ user ∈ sixteenLetters, user.userId < 2 ^ 32 := customersNamed_inRange (by decide)
  refine (user_list_honest_iff .plain _ rfl hrange (by decide +kernel)).mpr ?_
  have hfits : ∀ n < 28,
      maxMsgLen ≤ (userListText ((listedUsers sixteenLetters).take (n + 1))).length →
      (userListText ((listedUsers sixteenLetters).take n)).length < maxMsgLen →
      (userListText ((listedUsers sixteenLetters).take n)).length + truncationMarker.length <
        maxMsgLen := by
    decide +kernel
  intro first user rest hsplit hfirst hstop
  have hall : (listedUsers sixteenLetters).length = 28 := by decide +kernel
  have hlength : first.length < 28 := by
    rw [hsplit, List.length_append, List.length_cons] at hall
    omega
  have htake : (listedUsers sixteenLetters).take first.length = first := by
    rw [hsplit, List.take_left]
  have htake' : (listedUsers sixteenLetters).take (first.length + 1) = first ++ [user] := by
    rw [hsplit, List.take_length_add_append, List.take_succ_cons, List.take_zero]
  have hroom := hfits first.length hlength
  rw [htake, htake'] at hroom
  exact hroom hstop hfirst

/-- After 27 lines there is room for 23 of the 25 bytes of the marker. -/
theorem marker_cut_off :
    ¬ ∀ (db : Database ℚ) (users : List UserRec), db.users = some users →
      (∀ user ∈ users, user.userId < 2 ^ 32 ∧ user.username.Ends) → listedUsers users ≠ [] →
      TellsAll users ((Request.listUsers : Request ℚ).handle .plain db).1.message := by
  intro h
  have hrange : ∀ user ∈ customersNamed "user" 28, user.userId < 2 ^ 32 :=
    customersNamed_inRange (by decide)
  have htells := h { Database.empty fun _ => 1 with users := some (customersNamed "user" 28) }
    (customersNamed "user" 28) rfl ?_ (by decide +kernel)
  · rw [listAllUsers_message .plain rfl (by decide +kernel), tellsAll_iff hrange] at htells
    have hroom := htells (customersNamed "user" 27)
      { UserRec.zero with userId := 1028, username := .ofText (str "user") } []
      (by decide +kernel) (by decide +kernel) (by decide +kernel)
    exact absurd hroom (by decide +kernel)
  · intro user huser
    refine ⟨hrange user huser, ?_⟩
    obtain ⟨i, -, rfl⟩ := List.mem_map.mp huser
    have hends : 0 ∈ (CharArray.ofText (str "user") : CharArray maxUsernameLen).bytes := by
      decide +kernel
    exact hends

end BankingSystem
