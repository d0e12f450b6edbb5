import BankingSystem.Clients.SystemCalls
import BankingSystem.Requests.Alone

/-!
# Updates of different accounts

Two updates of different accounts, interleaved system call by system call.  The locks
play no part: each thread finds its own record by the user ids, which nobody changes,
and reads and writes no other.
-/

namespace BankingSystem

open Foundation Posix

variable {M : Type}

/-- A call of `atomic_update_account`, whose modifier leaves the user id alone. -/
structure AccountUpdate (M : Type) where
  userId : Nat
  modifier : AccountRec M → Option (AccountRec M)
  keeps : ∀ acc acc', modifier acc = some acc' → acc'.userId = acc.userId

namespace AccountUpdate

def program (update : AccountUpdate M) (fuel : Nat) : Prog (Sys M) Bool :=
  Sys.atomicUpdateAccount fuel update.userId update.modifier

def locate (update : AccountUpdate M) (accounts : List (AccountRec M)) : Option Nat :=
  Table.locate AccountRec.userId update.userId accounts

def revise (update : AccountUpdate M) (acc : AccountRec M) : AccountRec M :=
  Table.revise AccountRec.userId update.userId update.modifier acc

def succeeds (update : AccountUpdate M) (accounts : List (AccountRec M)) : Bool :=
  ((Table.lookup AccountRec.userId update.userId accounts).bind update.modifier).isSome

def upTo (update : AccountUpdate M) (written : Bool) (acc : AccountRec M) : AccountRec M :=
  if written then update.revise acc else acc

variable {update other : AccountUpdate M} {written : Bool} {acc : AccountRec M}

@[simp] theorem userId_revise : (update.revise acc).userId = acc.userId :=
  Table.key_revise update.keeps acc

private theorem revise_of_ne (h : acc.userId ≠ update.userId) : update.revise acc = acc := if_neg h

@[simp] theorem userId_upTo : (update.upTo written acc).userId = acc.userId := by
  cases written
  · rfl
  · exact userId_revise

private theorem upTo_of_ne (h : acc.userId ≠ update.userId) : update.upTo written acc = acc := by
  cases written
  · rfl
  · exact revise_of_ne h

private theorem upTo_comm (hne : update.userId ≠ other.userId) (written written' : Bool) :
    update.upTo written (other.upTo written' acc) =
      other.upTo written' (update.upTo written acc) := by
  cases written <;> cases written' <;> first
    | rfl
    | exact Table.revise_comm update.keeps other.keeps hne acc

end AccountUpdate

/-! ## One thread -/

/--
What an update relies on while `accounts` are revised by others, and what it does: it
writes once, over its own record, what the modifier makes of it.
-/
def apartProtocol (accounts : List (AccountRec M)) (update : AccountUpdate M) :
    Protocol (Sys M) Bool where
  allows written
    | .openFile f flags => f = .accounts ∧ flags.create = false
    | .read f fd => f = .accounts ∧ fd.access ≠ .writeOnly
    | .write .accounts fd acc => written = false ∧ fd.access ≠ .readOnly ∧ fd.append = false ∧
        update.locate accounts = some fd.pos ∧ accounts[fd.pos]?.bind update.modifier = some acc
    | .write _ _ _ | .time | .stall => False
    | _ => True
  answers written
    | .openFile _ flags, fd =>
        fd = some ⟨flags.access, flags.append, 0⟩ ∨ fd = none ∧ accounts = []
    | .setLockWait _ fd _ _, granted => fd.access ≠ .readOnly → granted = true
    | .read .accounts fd, acc =>
        acc.map AccountRec.userId = (accounts[fd.pos]?).map AccountRec.userId ∧
          (written = false → update.locate accounts = some fd.pos → acc = accounts[fd.pos]?)
    | .write _ _ _, success => success = true
    | _, _ => True
  next written
    | .write _ _ _, _ => true
    | _, _ => written

section Follows

variable {accounts : List (AccountRec M)} {update : AccountUpdate M} {fuel : Nat}

private theorem apart_readUntil (fd : Fd DbFile.accounts) (haccess : fd.access ≠ .writeOnly)
    (hpos : fd.pos ≤ accounts.length) (hfuel : accounts.length < fd.pos + fuel)
    (hbefore : ∀ j acc, j < fd.pos → accounts[j]? = some acc → acc.userId ≠ update.userId) :
    (apartProtocol accounts update).Follows (fun written result => written = false ∧
      result.map Prod.fst = update.locate accounts) false
      (Sys.readUntil (f := .accounts) (fun tmp => tmp.userId = update.userId) fuel fd) := by
  induction fuel generalizing fd with
  | zero => omega
  | succ fuel ih =>
      refine Sys.follows_bind ⟨rfl, haccess⟩ fun tmp hread => ?_
      have hkey := hread.1
      cases tmp with
      | none =>
          cases hacc : accounts[fd.pos]? with
          | some acc => simp [hacc] at hkey
          | none =>
              have hend : accounts.length ≤ fd.pos := List.getElem?_eq_none_iff.mp hacc
              refine ⟨rfl, (Table.locate_eq_none_iff.mpr fun acc hmem => ?_).symm⟩
              obtain ⟨j, hj⟩ := List.mem_iff_getElem?.mp hmem
              obtain ⟨hlt, -⟩ := List.getElem?_eq_some_iff.mp hj
              exact hbefore j acc (by omega) hj
      | some tmp =>
          cases hacc : accounts[fd.pos]? with
          | none => simp [hacc] at hkey
          | some acc =>
              obtain ⟨hlt, -⟩ := List.getElem?_eq_some_iff.mp hacc
              simp only [hacc, Option.map_some, Option.some_inj] at hkey
              by_cases hfound : tmp.userId = update.userId
              · simp only [hfound, decide_true, if_true]
                refine ⟨rfl, (Table.locate_eq_some_iff.mpr ?_).symm⟩
                exact ⟨acc, hacc, hkey.symm.trans hfound, hbefore⟩
              · simp only [hfound, decide_false, Bool.false_eq_true, if_false]
                refine ih (fd.seek (fd.pos + 1)) haccess hlt ?_ ?_
                · change accounts.length < fd.pos + 1 + fuel
                  omega
                · intro j acc' hj hacc'
                  rcases Nat.lt_succ_iff_lt_or_eq.mp hj with hlt | rfl
                  · exact hbefore j acc' hlt hacc'
                  · rw [hacc] at hacc'
                    cases hacc'
                    exact hkey ▸ hfound

private theorem apart_search (hfuel : accounts.length < fuel) :
    (apartProtocol accounts update).Follows (fun written result => written = false ∧
      result.map Prod.fst = update.locate accounts) false
      (Sys.search fuel .accounts fun tmp => tmp.userId = update.userId) := by
  refine Sys.follows_bind ⟨rfl, rfl⟩ fun fd hfd => ?_
  obtain rfl | ⟨rfl, rfl⟩ := hfd
  · refine Sys.follows_bind trivial fun _ _ => ?_
    refine (apart_readUntil ⟨.readOnly, false, 0⟩ nofun (Nat.zero_le _)
      (by simpa using hfuel) fun j acc hj => absurd hj (Nat.not_lt_zero j)).bind ?_
    rintro written result ⟨rfl, hresult⟩
    refine Sys.follows_bind trivial fun _ _ => ?_
    exact Sys.follows_bind trivial fun _ _ => ⟨rfl, hresult⟩
  · exact ⟨rfl, rfl⟩

private theorem apart_beginUpdate {offset : Nat} {acc : AccountRec M}
    (hloc : update.locate accounts = some offset) (hacc : accounts[offset]? = some acc) :
    (apartProtocol accounts update).Follows (fun written tmp => written = false ∧
      tmp = some acc) false (Sys.beginUpdate .accounts offset) := by
  refine Sys.follows_bind ⟨rfl, rfl⟩ fun fd hfd => ?_
  obtain rfl | ⟨-, rfl⟩ := hfd
  · refine Sys.follows_bind trivial fun locked hlocked => ?_
    cases hlocked nofun
    refine Sys.follows_bind (M := M) ⟨rfl, nofun⟩ fun tmp hread => ?_
    have htmp : tmp = some acc := (hread.2 rfl hloc).trans hacc
    subst htmp
    exact ⟨rfl, rfl⟩
  · cases hacc

private theorem apart_endUpdate {offset : Nat} {acc : AccountRec M}
    (hloc : update.locate accounts = some offset) (hacc : accounts[offset]? = some acc) :
    (apartProtocol accounts update).Follows (fun written success => written = success ∧
      success = (update.modifier acc).isSome) false
      (Sys.endUpdate .accounts offset (update.modifier acc)) := by
  cases hmod : update.modifier acc with
  | none => exact ⟨trivial, fun _ _ => ⟨trivial, fun _ _ => ⟨rfl, rfl⟩⟩⟩
  | some acc' =>
      have hwrite : accounts[offset]?.bind update.modifier = some acc' := by
        rw [hacc, Option.bind_some, hmod]
      refine Sys.follows_bind (M := M) ⟨rfl, nofun, rfl, hloc, hwrite⟩ fun success hsuccess => ?_
      cases hsuccess
      refine Sys.follows_bind trivial fun _ _ => ?_
      exact Sys.follows_bind trivial fun _ _ => ⟨rfl, rfl⟩

private theorem apart_program (hfuel : accounts.length < fuel) :
    (apartProtocol accounts update).Follows (fun written success => written = success ∧
      success = update.succeeds accounts) false (update.program fuel) := by
  unfold AccountUpdate.succeeds
  have hfind : (apartProtocol accounts update).Follows (fun written offset =>
      written = false ∧ offset = update.locate accounts) false
      (Sys.findAccountOffset fuel update.userId) :=
    (apart_search hfuel).bind fun written result hresult => hresult
  refine hfind.bind ?_
  rintro written offset ⟨rfl, rfl⟩
  cases hloc : update.locate accounts with
  | none =>
      rw [Table.lookup_of_locate_none hloc]
      exact ⟨rfl, rfl⟩
  | some offset =>
      obtain ⟨acc, hacc, -⟩ := Table.getElem?_of_locate hloc
      refine (apart_beginUpdate hloc hacc).bind ?_
      rintro written tmp ⟨rfl, rfl⟩
      rw [Table.lookup_of_locate hloc, hacc, Option.bind_some]
      exact apart_endUpdate hloc hacc

end Follows

/-! ## Both threads -/

def progress (updates : Bool → AccountUpdate M) (written : Bool → Bool)
    (acc : AccountRec M) : AccountRec M :=
  (updates true).upTo (written true) ((updates false).upTo (written false) acc)

structure Merged (start : Machine M) (updates : Bool → AccountUpdate M) (k : Machine M)
    (written : Bool → Bool) : Prop where
  accounts : k.files .accounts =
    (start.files .accounts).map (List.map (progress updates written))
  others : ∀ f, f ≠ .accounts → k.files f = start.files f
  clock : k.clock = start.clock

section Invariant

variable {start k : Machine M} {updates : Bool → AccountUpdate M} {written : Bool → Bool}

private theorem progress_eq (hne : (updates false).userId ≠ (updates true).userId) (i : Bool)
    (acc : AccountRec M) : progress updates written acc =
      (updates i).upTo (written i) ((updates !i).upTo (written !i) acc) := by
  cases i
  · exact AccountUpdate.upTo_comm (Ne.symm hne) _ _
  · rfl

@[simp] theorem userId_progress (acc : AccountRec M) :
    (progress updates written acc).userId = acc.userId := by
  simp [progress]

theorem Merged.content (h : Merged start updates k written) :
    k.content .accounts = (start.content .accounts).map (progress updates written) := by
  rw [Kernel.content, h.accounts, Kernel.content]
  cases start.files .accounts <;> rfl

private theorem progress_own (hne : (updates false).userId ≠ (updates true).userId) {i : Bool}
    {acc : AccountRec M} (hkey : acc.userId = (updates i).userId) :
    progress updates written acc = (updates i).upTo (written i) acc := by
  have hother : acc.userId ≠ (updates !i).userId := by
    cases i
    · exact hkey ▸ hne
    · exact hkey ▸ Ne.symm hne
  rw [progress_eq hne i, AccountUpdate.upTo_of_ne hother]

theorem Merged.write (hne : (updates false).userId ≠ (updates true).userId)
    (hids : ((start.content .accounts).map AccountRec.userId).Nodup)
    (h : Merged start updates k written) {i : Bool} {pos : Nat} {acc : AccountRec M}
    (hidle : written i = false)
    (hloc : (updates i).locate (start.content .accounts) = some pos)
    (hacc : (start.content .accounts)[pos]?.bind (updates i).modifier = some acc) :
    (k.content .accounts).set pos acc = (start.content .accounts).map
      (progress updates (Function.update written i true)) := by
  obtain ⟨own, hown, hkey⟩ := Table.getElem?_of_locate hloc
  rw [hown, Option.bind_some] at hacc
  obtain ⟨hlt, -⟩ := List.getElem?_eq_some_iff.mp hown
  rw [h.content]
  apply List.ext_getElem?
  intro j
  by_cases hj : j = pos
  · subst hj
    have hrevised : (updates i).revise own = acc := by
      rw [AccountUpdate.revise, Table.revise, if_pos hkey, hacc, Option.getD_some]
    rw [List.getElem?_set_self (by simpa using hlt), List.getElem?_map, hown, Option.map_some,
      progress_own hne hkey, Function.update_self, AccountUpdate.upTo, if_pos rfl, hrevised]
  · rw [List.getElem?_set_ne (Ne.symm hj), List.getElem?_map, List.getElem?_map]
    cases hother : (start.content .accounts)[j]? with
    | none => rfl
    | some other =>
        have hforeign : other.userId ≠ (updates i).userId := fun hsame =>
          hj (Table.getElem?_key_inj hids hown hother (hsame.trans hkey.symm))
        have hkept : ((updates !i).upTo (written !i) other).userId ≠ (updates i).userId := by
          rwa [AccountUpdate.userId_upTo]
        have hnot : (!i) ≠ i := by cases i <;> decide
        rw [Option.map_some, Option.map_some, progress_eq hne i, progress_eq hne i,
          Function.update_of_ne hnot, AccountUpdate.upTo_of_ne hkept,
          AccountUpdate.upTo_of_ne hkept]

theorem Merged.setFile (hne : (updates false).userId ≠ (updates true).userId)
    (hids : ((start.content .accounts).map AccountRec.userId).Nodup)
    (h : Merged start updates k written) {i : Bool} {pos : Nat} {acc : AccountRec M}
    (hidle : written i = false)
    (hloc : (updates i).locate (start.content .accounts) = some pos)
    (hacc : (start.content .accounts)[pos]?.bind (updates i).modifier = some acc) :
    Merged start updates (k.setFile .accounts (Table.put (k.content .accounts) pos acc))
      (Function.update written i true) := by
  obtain ⟨own, hown, -⟩ := Table.getElem?_of_locate hloc
  obtain ⟨hlt, -⟩ := List.getElem?_eq_some_iff.mp hown
  have hput : Table.put (k.content .accounts) pos acc = (k.content .accounts).set pos acc :=
    Table.put_of_lt (by rw [h.content, List.length_map]; exact hlt)
  refine ⟨?_, fun f hf => ?_, h.clock⟩
  · rw [hput, h.write hne hids hidle hloc hacc]
    cases hfile : start.files .accounts with
    | none => simp [Kernel.content, hfile] at hown
    | some records =>
        simp only [Kernel.setFile, Kernel.content, hfile, Function.update_self,
          Option.getD_some, Option.map_some]
  · rw [← h.others f hf]
    exact Function.update_of_ne hf _ _

private theorem apart_sound (proc : Bool → Nat)
    (hne : (updates false).userId ≠ (updates true).userId)
    (hids : ((start.content .accounts).map AccountRec.userId).Nodup) :
    Protocol.Sound (fun i => apartProtocol (start.content .accounts) (updates i))
      (Posix.semantics proc) (Merged start updates) (fun _ _ _ => True) where
  step {k k' written i call result} h _ hallow hexec := by
    have hsame : k'.files = k.files → k'.clock = k.clock →
        Merged start updates k' (Function.update written i (written i)) := by
      intro hfiles hclock
      rw [Function.update_eq_self]
      exact ⟨hfiles ▸ h.accounts, hfiles ▸ h.others, hclock ▸ h.clock⟩
    cases call with
    | openFile f flags =>
        obtain ⟨rfl, hcreate⟩ := hallow
        simp only [semantics, exec, hcreate, Bool.false_eq_true, if_false] at hexec
        cases hfile : k.files .accounts with
        | some records =>
            simp only [hfile, Option.some_inj, Prod.mk.injEq] at hexec
            obtain ⟨rfl, rfl⟩ := hexec
            exact ⟨.inl rfl, hsame rfl rfl⟩
        | none =>
            simp only [hfile, Option.some_inj, Prod.mk.injEq] at hexec
            obtain ⟨rfl, rfl⟩ := hexec
            have hmissing := h.accounts
            rw [hfile, eq_comm, Option.map_eq_none_iff] at hmissing
            exact ⟨.inr ⟨rfl, by rw [Kernel.content, hmissing, Option.getD_none]⟩, hsame rfl rfl⟩
    | setLockWait f fd kind range =>
        cases kind with
        | unlock =>
            simp only [semantics, exec, Option.some_inj, Prod.mk.injEq] at hexec
            obtain ⟨rfl, rfl⟩ := hexec
            exact ⟨fun _ => rfl, hsame rfl rfl⟩
        | writeLock =>
            simp only [semantics, exec] at hexec
            split at hexec
            · simp only [Option.some_inj, Prod.mk.injEq] at hexec
              obtain ⟨rfl, rfl⟩ := hexec
              exact ⟨fun haccess => absurd ‹_› haccess, hsame rfl rfl⟩
            · split at hexec
              · cases hexec
              · simp only [Option.some_inj, Prod.mk.injEq] at hexec
                obtain ⟨rfl, rfl⟩ := hexec
                exact ⟨fun _ => rfl, hsame rfl rfl⟩
    | read f fd =>
        obtain ⟨rfl, haccess⟩ := hallow
        simp only [semantics, exec, if_neg haccess, Option.some_inj, Prod.mk.injEq] at hexec
        obtain ⟨rfl, rfl⟩ := hexec
        refine ⟨⟨?_, fun hidle hloc => ?_⟩, hsame rfl rfl⟩
        · rw [h.content, List.getElem?_map, Option.map_map]
          exact Option.map_congr fun acc _ => userId_progress acc
        · obtain ⟨own, hown, hkey⟩ := Table.getElem?_of_locate hloc
          rw [h.content, List.getElem?_map, hown, Option.map_some, progress_own hne hkey, hidle]
          rfl
    | write f fd r =>
        cases f with
        | accounts =>
            obtain ⟨hidle, haccess, happend, hloc, hacc⟩ := hallow
            simp only [semantics, exec, if_neg haccess, Option.some_inj, Prod.mk.injEq] at hexec
            obtain ⟨rfl, rfl⟩ := hexec
            have hpos : writePos fd (k.content .accounts) = fd.pos := by
              rw [writePos, happend]
              rfl
            rw [hpos]
            exact ⟨rfl, h.setFile hne hids hidle hloc hacc⟩
        | _ => exact hallow.elim
    | seekEnd f fd | close f fd =>
        simp only [semantics, exec, Option.some_inj, Prod.mk.injEq] at hexec
        exact ⟨trivial, hsame (hexec.2 ▸ rfl) (hexec.2 ▸ rfl)⟩
    | time | stall => exact hallow.elim

end Invariant

/-! ## One after the other -/

section Alone

variable {update other : AccountUpdate M} {accounts : List (AccountRec M)}
  {d : Disk DbFile (DbFile.Rec M)} {fuel : Nat}

def revised (d : Disk DbFile (DbFile.Rec M)) (update : AccountUpdate M) :
    Disk DbFile (DbFile.Rec M) :=
  { d with files :=
      Function.update d.files .accounts ((d.files .accounts).map (List.map update.revise)) }

private theorem content_revised : (revised d update).content .accounts =
    (d.content .accounts).map update.revise := by
  simp only [revised, Disk.content, Function.update_self]
  cases d.files .accounts <;> rfl

private theorem map_userId_revise :
    (accounts.map update.revise).map AccountRec.userId = accounts.map AccountRec.userId := by
  rw [List.map_map]
  exact List.map_congr_left fun acc _ => AccountUpdate.userId_revise

private theorem program_ends (update : AccountUpdate M)
    (hids : ((d.content .accounts).map AccountRec.userId).Nodup)
    (hfuel : (d.content .accounts).length < fuel) :
    Sys.Ends (update.program fuel) d (update.succeeds (d.content .accounts))
      (revised d update) := by
  have hends := Sys.atomicUpdateAccount_ends update.userId update.modifier hfuel
  have hrevised := Table.modify_getD (k := update.userId) hids update.modifier
  rw [Table.isSome_modify] at hends
  have hdisk : (Table.modify AccountRec.userId update.userId update.modifier
      (d.content .accounts)).elim d (d.setFile .accounts) = revised d update := by
    cases hfile : d.files .accounts with
    | none =>
        rw [Disk.content_of_missing hfile, revised, hfile, Option.map_none, ← hfile,
          Function.update_eq_self]
        rfl
    | some records =>
        rw [Disk.content_of_files hfile] at hrevised ⊢
        rw [revised, hfile, Option.map_some]
        change _ = d.setFile .accounts (records.map (Table.revise AccountRec.userId _ _))
        rw [← hrevised]
        cases Table.modify AccountRec.userId update.userId update.modifier records with
        | none => exact (Disk.setFile_eq_self hfile).symm
        | some accounts => rfl
  rw [hdisk] at hends
  exact hends

private theorem succeeds_revised (hne : update.userId ≠ other.userId) :
    update.succeeds (accounts.map other.revise) = update.succeeds accounts := by
  rw [AccountUpdate.succeeds, Table.lookup_map fun acc => AccountUpdate.userId_revise,
    AccountUpdate.succeeds]
  cases hlookup : Table.lookup AccountRec.userId update.userId accounts with
  | none => rfl
  | some acc =>
      have hforeign : acc.userId ≠ other.userId := Table.lookup_key hlookup ▸ hne
      rw [Option.map_some, AccountUpdate.revise_of_ne hforeign]

private theorem upTo_succeeds {acc : AccountRec M} (hids : (accounts.map AccountRec.userId).Nodup)
    (hmem : acc ∈ accounts) : update.upTo (update.succeeds accounts) acc = update.revise acc := by
  by_cases hkey : acc.userId = update.userId
  · have hlookup := Table.lookup_of_mem hids hmem
    rw [AccountUpdate.succeeds, ← hkey, hlookup, Option.bind_some, AccountUpdate.upTo]
    cases hmod : update.modifier acc with
    | none => simp [AccountUpdate.revise, Table.revise, hmod]
    | some acc' => rfl
  · rw [AccountUpdate.upTo_of_ne hkey, AccountUpdate.revise_of_ne hkey]

end Alone

/-! ## Every interleaving -/

def Waits (proc : Bool → Nat) (pool : Pool (Sys M) (Machine M) Bool Bool) (i : Bool) : Prop :=
  ∃ (f : DbFile) (fd : Fd f) (range : Range) (next : Bool → Prog (Sys M) Bool),
    pool.threads i = .call (S := Sys M) (.setLockWait f fd .writeLock range) next ∧
      pool.state.conflicts (proc i) f range = true

private theorem progress_done {updates : Bool → AccountUpdate M}
    (hne : (updates false).userId ≠ (updates true).userId) {accounts : List (AccountRec M)}
    (hids : (accounts.map AccountRec.userId).Nodup) (first : Bool) :
    accounts.map (progress updates fun i => (updates i).succeeds accounts) =
      (accounts.map (updates first).revise).map (updates !first).revise := by
  rw [List.map_map]
  refine List.map_congr_left fun acc hmem => ?_
  have hdistinct : (updates first).userId ≠ (updates !first).userId := by
    cases first
    · exact hne
    · exact Ne.symm hne
  rw [progress_eq hne (!first), Bool.not_not, upTo_succeeds hids hmem, Function.comp_apply]
  by_cases hkey : acc.userId = (updates first).userId
  · have hforeign : ((updates first).revise acc).userId ≠ (updates !first).userId := by
      rw [AccountUpdate.userId_revise, hkey]
      exact hdistinct
    rw [AccountUpdate.upTo_of_ne hforeign, AccountUpdate.revise_of_ne hforeign]
  · rw [AccountUpdate.revise_of_ne hkey, upTo_succeeds hids hmem]

private theorem Merged.disk_done {start k : Machine M} {updates : Bool → AccountUpdate M}
    (hne : (updates false).userId ≠ (updates true).userId)
    (hids : ((start.content .accounts).map AccountRec.userId).Nodup) (first : Bool)
    (h : Merged start updates k fun i => (updates i).succeeds (start.content .accounts)) :
    k.disk = revised (revised start.disk (updates first)) (updates !first) := by
  refine congr (congrArg Disk.mk (funext fun f => ?_)) h.clock
  by_cases hf : f = .accounts
  · subst hf
    have hdone := progress_done hne hids first
    rw [h.accounts]
    simp only [revised, Kernel.disk, Function.update_self]
    cases hfile : start.files .accounts with
    | none => rfl
    | some records =>
        rw [Kernel.content, hfile, Option.getD_some] at hdone
        rw [Kernel.content, hfile, Option.getD_some]
        exact congrArg some hdone
  · rw [h.others f hf]
    simp only [revised, Kernel.disk, Function.update_of_ne hf]

def inTurn (fuel : Nat) (updates : Bool → AccountUpdate M) (first : Bool) :
    Prog (Sys M) (Bool × Bool) := do
  let result ← (updates first).program fuel
  let result' ← (updates !first).program fuel
  return (result, result')

private theorem inTurn_ends {updates : Bool → AccountUpdate M} {d : Disk DbFile (DbFile.Rec M)}
    {fuel : Nat} (hne : (updates false).userId ≠ (updates true).userId)
    (hids : ((d.content .accounts).map AccountRec.userId).Nodup)
    (hfuel : (d.content .accounts).length < fuel) (first : Bool) :
    Sys.Ends (inTurn fuel updates first) d
      ((updates first).succeeds (d.content .accounts),
        (updates !first).succeeds (d.content .accounts))
      (revised (revised d (updates first)) (updates !first)) := by
  have hdistinct : (updates !first).userId ≠ (updates first).userId := by
    cases first
    · exact Ne.symm hne
    · exact hne
  have hcontent : (revised d (updates first)).content .accounts =
      (d.content .accounts).map (updates first).revise := content_revised
  have hids' : (((revised d (updates first)).content .accounts).map AccountRec.userId).Nodup := by
    rwa [hcontent, map_userId_revise]
  have hfuel' : ((revised d (updates first)).content .accounts).length < fuel := by
    rwa [hcontent, List.length_map]
  have hsecond := program_ends (updates !first) hids' hfuel'
  rw [hcontent, succeeds_revised hdistinct] at hsecond
  exact .bind (program_ends (updates first) hids hfuel) (.bind hsecond .ret)

/--
Two updates of different accounts, interleaved system call by system call, whatever
processes the threads belong to.  No thread gets stuck except to wait for a lock, and
once both have returned, the files and the two results are those of the calls made one
after the other, in either order.
-/
theorem updates_apart (fuel : Nat) (proc : Bool → Nat) (updates : Bool → AccountUpdate M)
    (k : Machine M) (schedule : List Bool) (pool : Pool (Sys M) (Machine M) Bool Bool)
    (hne : (updates false).userId ≠ (updates true).userId)
    (hids : ((k.content .accounts).map AccountRec.userId).Nodup)
    (hfuel : (k.content .accounts).length < fuel)
    (hrun : Pool.run (Posix.semantics proc) schedule
      ⟨k, fun i => (updates i).program fuel⟩ = some pool) :
    (∀ i, pool.step (Posix.semantics proc) i = none →
      (∃ result, pool.Returned i result) ∨ Waits proc pool i) ∧
    ∀ results : Bool → Bool, (∀ i, pool.Returned i (results i)) → ∀ first,
      Sys.Ends (inTurn fuel updates first) k.disk (results first, results !first)
        pool.state.disk := by
  have hinit : Protocol.Explains (fun i => apartProtocol (k.content .accounts) (updates i))
      (Merged k updates) (fun i written success => written = success ∧
        success = (updates i).succeeds (k.content .accounts))
      ⟨k, fun i => (updates i).program fuel⟩ fun _ => false := by
    refine ⟨⟨?_, fun _ _ => rfl, rfl⟩, fun i => apart_program hfuel⟩
    cases hfile : k.files .accounts with
    | none => rfl
    | some records => exact congrArg some (List.map_id' records).symm
  obtain ⟨written, hexplains⟩ := (apart_sound proc hne hids).run hinit
    (Pool.along_of_always (fun _ _ _ _ _ => trivial) schedule _) hrun
  refine ⟨fun i hstuck => ?_, fun results hret first => ?_⟩
  · have hfollows := hexplains.2 i
    cases hthread : pool.threads i with
    | ret result => exact .inl ⟨result, hthread⟩
    | call call next =>
        rw [hthread] at hfollows
        rw [Pool.step_of_call hthread, Option.map_eq_none_iff] at hstuck
        rcases exec_eq_none hstuck with rfl | ⟨f, fd, range, rfl, hconflict⟩
        · exact hfollows.1.elim
        · exact .inr ⟨f, fd, range, next, hthread, hconflict⟩
  · have hresults : ∀ i, written i = results i ∧
        results i = (updates i).succeeds (k.content .accounts) :=
      fun i => hexplains.returned (hret i)
    have hwritten : written = fun i => (updates i).succeeds (k.content .accounts) :=
      funext fun i => (hresults i).1.trans (hresults i).2
    have hmerged := hexplains.1
    rw [hwritten] at hmerged
    rw [(hresults first).2, (hresults !first).2, hmerged.disk_done hne hids first]
    exact inTurn_ends (d := k.disk) hne hids hfuel first

def depositAndClose : Bool → AccountUpdate ℚ
  | false => ⟨1001, depositModifier 5, fun _ _ h => (depositModifier_eq_some_iff.mp h).2 ▸ rfl⟩
  | true => ⟨1002, setStatusModifier 0, fun _ _ h => by cases h; rfl⟩

def twoAccounts : Machine ℚ where
  files
    | .accounts => some [⟨1001, 1001, 0, .active⟩, ⟨1002, 1002, 3, .active⟩]
    | _ => none
  locks := []
  clock _ := 1

/-- The account is closed while the deposit is about to write. -/
theorem updates_apart_deposit_and_close : ∃ pool,
    Pool.run (Posix.semantics fun _ => 7)
      (List.replicate 8 false ++ List.replicate 12 true ++ List.replicate 3 false)
      ⟨twoAccounts, fun i => (depositAndClose i).program 3⟩ = some pool ∧
    ∀ first, Sys.Ends (inTurn 3 depositAndClose first) twoAccounts.disk (true, true)
      pool.state.disk := by
  obtain ⟨pool, hrun, hret⟩ := Pool.exists_run (Posix.semantics fun _ => 7)
    (List.replicate 8 false ++ List.replicate 12 true ++ List.replicate 3 false)
    ⟨twoAccounts, fun i => (depositAndClose i).program 3⟩ (fun _ => true) (by decide +kernel)
  refine ⟨pool, hrun, ?_⟩
  exact (updates_apart 3 (fun _ => 7) depositAndClose twoAccounts _ pool (by decide)
    (by decide) (by decide) hrun).2 (fun _ => true) hret

end BankingSystem
