import BankingSystem.Foundation.Protocol
import BankingSystem.Requests.Tables

/-!
# Clients served at the same time

Each client has a thread of the server.  One step of a thread is one call of a
persistence helper, which acts at once and never blocks.
-/

namespace BankingSystem

open Foundation

variable {M ι : Type}

theorem Db.follows_bind {γ β : Type} {P : Protocol (Db M) γ} {post : γ → β → Prop} {g : γ}
    {cmd : Db.Cmd M} {f : Db.Ans M cmd → Prog (Db M) β} (hallow : P.allows g cmd)
    (hnext : ∀ answer, P.answers g cmd answer →
      P.Follows post (P.next g cmd answer) (f answer)) :
    P.Follows post g (Db.issue cmd >>= f) :=
  ⟨hallow, hnext⟩

/-! ## Conditions on the writes of user records -/

def Db.Cmd.newUser? : Db.Cmd M → Option UserRec
  | .writeUser user => some user
  | _ => none

def Db.Cmd.newAccount? : Db.Cmd M → Option (AccountRec M)
  | .writeAccount acc => some acc
  | _ => none

/-- The file has no record with the id of the one that is about to be written. -/
def FreshIds (db : Database M) (_ : ι) (cmd : Db.Cmd M) : Prop :=
  (∀ user ∈ cmd.newUser?, ∀ old ∈ db.userTable, old.userId ≠ user.userId) ∧
  ∀ acc ∈ cmd.newAccount?, ∀ old ∈ db.accountTable, old.userId ≠ acc.userId

instance (db : Database M) (i : ι) (cmd : Db.Cmd M) : Decidable (FreshIds db i cmd) :=
  inferInstanceAs (Decidable ((∀ user ∈ cmd.newUser?, _) ∧ ∀ acc ∈ cmd.newAccount?, _))

def Db.Cmd.writtenUser? : Db.Cmd M → Option UserRec
  | .writeUser user => some user
  | .commitUser _ user => user
  | _ => none

/-- `check_uniqueness` would accept the record that is about to be written. -/
def StillUnique (db : Database M) (_ : ι) (cmd : Db.Cmd M) : Prop :=
  ∀ user ∈ cmd.writtenUser?,
    firstClash user.username.text user.email.text user.phone.text user.userId
      db.userTable = none

instance (db : Database M) (i : ι) (cmd : Db.Cmd M) : Decidable (StillUnique db i cmd) :=
  inferInstanceAs (Decidable (∀ user ∈ cmd.writtenUser?, _))

variable [Amount M]

/-- Every helper call of every thread acts on the one database. -/
def Db.shared : Semantics (Db M) (Database M) ι :=
  fun _ cmd db => some (Db.exec cmd db)

theorem Db.shared_eq_some_iff {i : ι} {cmd : Db.Cmd M} {db db' : Database M}
    {answer : Db.Ans M cmd} :
    Db.shared i cmd db = some (answer, db') ↔
      answer = (Db.exec cmd db).1 ∧ db' = (Db.exec cmd db).2 := by
  rw [Db.shared, Option.some_inj, Prod.ext_iff]
  exact ⟨fun h => ⟨h.1.symm, h.2.symm⟩, fun h => ⟨h.1.symm, h.2.symm⟩⟩

theorem Db.exec_updateAccount (userId : Nat) (modifier : AccountModifier M)
    (db : Database M) :
    (Db.exec (.updateAccount userId modifier) db = (false, db) ∧
      db.tables.updateAccount userId modifier = none) ∨
    ∃ db', Db.exec (.updateAccount userId modifier) db = (true, db') ∧
      db.tables.updateAccount userId modifier = some db'.tables := by
  cases hmod : Table.modify AccountRec.userId userId modifier.apply db.accountTable with
  | none =>
      have hnone := congrArg (Option.map db.tables.withAccounts) hmod
      exact .inl ⟨by simp [Db.exec, hmod], hnone⟩
  | some accounts =>
      have hsome := congrArg (Option.map db.tables.withAccounts) hmod
      exact .inr ⟨{ db with accounts := some accounts },
        by simp only [Db.exec, hmod], hsome⟩

theorem Db.exec_account {cmd : Db.Cmd M} {db : Database M} {j : Nat} {acc : AccountRec M}
    (hwrite : ∀ acc, cmd ≠ .writeAccount acc) (hacc : db.accountTable[j]? = some acc) :
    ∃ acc', (Db.exec cmd db).2.accountTable[j]? = some acc' ∧
      (acc' = acc ∨ ∃ modifier, cmd = .updateAccount acc.userId modifier ∧
        modifier.apply acc = some acc') := by
  by_cases hupdate : ∃ userId modifier, cmd = .updateAccount userId modifier
  · obtain ⟨userId, modifier, rfl⟩ := hupdate
    rcases Db.exec_updateAccount userId modifier db with ⟨hexec, -⟩ | ⟨db', hexec, htables⟩
    · rw [hexec]
      exact ⟨acc, hacc, .inl rfl⟩
    · rw [hexec]
      obtain ⟨acc', hacc', hsame | ⟨hkey, happly⟩⟩ :=
        Tables.updateAccount_getElem? htables hacc
      · exact ⟨acc', hacc', .inl hsame⟩
      · exact ⟨acc', hacc', .inr ⟨modifier, hkey ▸ rfl, happly⟩⟩
  · refine ⟨acc, ?_, .inl rfl⟩
    rw [Db.exec_accountTable db (fun u m h => hupdate ⟨u, m, h⟩) hwrite]
    exact hacc

theorem Request.session_follows {P : Protocol (Db M) Unit} (env : Env)
    (requests : List (Request M))
    (h : ∀ request ∈ requests,
      P.Follows (fun _ _ => True) () (request.program env)) :
    P.Follows (fun _ _ => True) () (Request.session env requests) := by
  induction requests with
  | nil => trivial
  | cons request requests ih =>
      refine (h request List.mem_cons_self).bind fun _ reply _ => ?_
      refine (ih fun r hr => h r (List.mem_cons_of_mem _ hr)).bind fun _ replies _ => ?_
      trivial

end BankingSystem
