import BankingSystem.Foundation.Ownership
import BankingSystem.Foundation.Run
import Mathlib.Data.List.Count

/-!
# The life of the server process

`server_start` accepts connections and makes a detached thread for each;
`sigint_handler` calls `server_stop` at any moment.  The state is the descriptors, the
allocated contexts, the accept loop and the client threads; what the operating
system answers is part of the event.
-/

namespace BankingSystem

open Foundation

namespace Lifecycle

/-! ## The process -/

inductive Descriptor where
  | listening
  | connection
  | file
  deriving DecidableEq

/-- Where `server_start` is; `cctx` is the address of the context. -/
inductive MainAt where
  | test
  | allocate
  | allocated (cctx : Nat)
  /-- In `accept`, on what was a listening socket when it was called or not. -/
  | accepting (cctx : Nat) (listening : Bool)
  | accepted (cctx : Nat)
  /-- `pthread_create` has failed. -/
  | closing (cctx : Nat)
  | freeing (cctx : Nat)
  | returned
  deriving DecidableEq

/-- Where a `client_thread_main` is. -/
inductive ThreadAt where
  | absent
  | created (cctx : Nat)
  | serving (cctx fd : Nat)
  | closed (cctx : Nat)
  | ended
  deriving DecidableEq

structure Process where
  running : Bool
  listenFd : Nat
  fds : Nat → Option Descriptor
  /-- The allocated contexts, each with its `client_fd`. -/
  contexts : Nat → Option Nat
  main : MainAt
  threads : Nat → ThreadAt

inductive Event where
  /-- The test of the `while` loop. -/
  | test
  /-- The new block and what its `client_fd` happens to hold. -/
  | malloc (block : Option (Nat × Nat))
  | accept
  /-- With a connection, or because the descriptor is no listening socket (any more). -/
  | acceptReturns (fd : Option Nat)
  /-- Any other error of `accept`. -/
  | acceptFails
  | pthreadCreate (thread : Option Nat)
  | closeRefused
  | freeRefused
  /-- The thread reads `ctx->client_fd`. -/
  | start (thread : Nat)
  /-- `recv_request` has returned 0 or less, and the thread calls `close`. -/
  | close (thread : Nat)
  | free (thread : Nat)
  | sigint
  | openFile (fd : Nat)
  | closeFile (fd : Nat)
  deriving DecidableEq

namespace Process

variable (s : Process)

def setMain (main : MainAt) : Process := { s with main }

def setThread (thread : Nat) (place : ThreadAt) : Process :=
  { s with threads := Function.update s.threads thread place }

def setContext (cctx : Nat) (content : Option Nat) : Process :=
  { s with contexts := Function.update s.contexts cctx content }

def setFd (fd : Nat) (descriptor : Option Descriptor) : Process :=
  { s with fds := Function.update s.fds fd descriptor }

def closeContext (cctx : Nat) : Process := s.setFd ((s.contexts cctx).getD 0) none

/-- `server_stop`: the mutex, which no accept loop uses, is left out. -/
def stop : Process := { s.setFd s.listenFd none with running := false }

/-- An event that cannot happen has no effect. -/
def step : Event → Process
  | .test =>
      match s.main with
      | .test => s.setMain (if s.running then .allocate else .returned)
      | _ => s
  | .malloc block =>
      match s.main, block with
      | .allocate, some (cctx, garbage) =>
          if s.contexts cctx = none then
            (s.setContext cctx (some garbage)).setMain (.allocated cctx)
          else s
      | .allocate, none => s.setMain .test
      | _, _ => s
  | .accept =>
      match s.main with
      | .allocated cctx => s.setMain (.accepting cctx (s.fds s.listenFd = some .listening))
      | _ => s
  | .acceptReturns fd =>
      match s.main, fd with
      | .accepting cctx true, some fd =>
          if s.fds fd = none then
            ((s.setFd fd (some .connection)).setContext cctx (some fd)).setMain (.accepted cctx)
          else s
      | .accepting cctx listening, none =>
          if listening = true ∧ s.fds s.listenFd = some .listening then s
          else (s.setContext cctx none).setMain .test
      | _, _ => s
  | .acceptFails =>
      match s.main with
      | .accepting cctx _ => (s.setContext cctx none).setMain .test
      | _ => s
  | .pthreadCreate thread =>
      match s.main, thread with
      | .accepted cctx, some thread =>
          if s.threads thread = .absent then (s.setThread thread (.created cctx)).setMain .test
          else s
      | .accepted cctx, none => s.setMain (.closing cctx)
      | _, _ => s
  | .closeRefused =>
      match s.main with
      | .closing cctx => (s.closeContext cctx).setMain (.freeing cctx)
      | _ => s
  | .freeRefused =>
      match s.main with
      | .freeing cctx => (s.setContext cctx none).setMain .test
      | _ => s
  | .start thread =>
      match s.threads thread with
      | .created cctx => s.setThread thread (.serving cctx ((s.contexts cctx).getD 0))
      | _ => s
  | .close thread =>
      match s.threads thread with
      | .serving cctx fd => (s.setFd fd none).setThread thread (.closed cctx)
      | _ => s
  | .free thread =>
      match s.threads thread with
      | .closed cctx => (s.setContext cctx none).setThread thread .ended
      | _ => s
  | .sigint => s.stop
  | .openFile fd => if s.fds fd = none then s.setFd fd (some .file) else s
  | .closeFile fd => if s.fds fd = some .file then s.setFd fd none else s

def run (events : List Event) : Process := events.foldl step s

/-- After `server_init`, `bind` and `listen`. -/
structure Listening : Prop where
  running : s.running = true
  main : s.main = .test
  threads : ∀ thread, s.threads thread = .absent
  contexts : ∀ cctx, s.contexts cctx = none
  fds : ∀ fd, s.fds fd = some .listening ↔ fd = s.listenFd
  connections : ∀ fd, s.fds fd ≠ some .connection

/-! ## Who owns what -/

end Process

def MainAt.context : MainAt → Option Nat
  | .allocated cctx | .accepting cctx _ | .accepted cctx | .closing cctx | .freeing cctx =>
      some cctx
  | .test | .allocate | .returned => none

def MainAt.connection (contexts : Nat → Option Nat) : MainAt → Option Nat
  | .accepted cctx | .closing cctx => contexts cctx
  | .test | .allocate | .allocated _ | .accepting _ _ | .freeing _ | .returned => none

def ThreadAt.context : ThreadAt → Option Nat
  | .created cctx | .serving cctx _ | .closed cctx => some cctx
  | .absent | .ended => none

def ThreadAt.connection (contexts : Nat → Option Nat) : ThreadAt → Option Nat
  | .created cctx => contexts cctx
  | .serving _ fd => some fd
  | .absent | .closed _ | .ended => none

namespace Process

variable (s : Process)

/-- The accept loop is the owner `none`. -/
def contextOf : Option Nat → Option Nat
  | none => s.main.context
  | some thread => (s.threads thread).context

def connectionOf : Option Nat → Option Nat
  | none => s.main.connection s.contexts
  | some thread => (s.threads thread).connection s.contexts

/-- Every context and every connection has one owner. -/
structure Owned : Prop where
  contexts : Foundation.Owned s.contextOf fun cctx => s.contexts cctx ≠ none
  connections : Foundation.Owned s.connectionOf fun fd => s.fds fd = some .connection
  listening : ∀ fd, s.fds fd = some .listening → fd = s.listenFd
  running : s.running = true → s.fds s.listenFd = some .listening

section Update

variable {s} {main : MainAt} {place : ThreadAt} {thread cctx fd : Nat} {content : Option Nat}
  {descriptor : Option Descriptor}

private theorem contextOf_setMain :
    (s.setMain main).contextOf = Function.update s.contextOf none main.context := by
  funext owner
  cases owner <;> rfl

private theorem contextOf_setThread : (s.setThread thread place).contextOf =
    Function.update s.contextOf (some thread) place.context := by
  funext owner
  cases owner with
  | none => rfl
  | some other =>
      by_cases hother : other = thread
      · subst hother
        simp [contextOf, setThread]
      · simp [contextOf, setThread, Function.update_of_ne, hother]

private theorem connectionOf_setMain : (s.setMain main).connectionOf =
    Function.update s.connectionOf none (main.connection s.contexts) := by
  funext owner
  cases owner <;> rfl

private theorem connectionOf_setThread : (s.setThread thread place).connectionOf =
    Function.update s.connectionOf (some thread) (place.connection s.contexts) := by
  funext owner
  cases owner with
  | none => rfl
  | some other =>
      by_cases hother : other = thread
      · subst hother
        simp [connectionOf, setThread]
      · simp [connectionOf, setThread, Function.update_of_ne, hother]

private theorem connectionOf_setContext {owner : Option Nat}
    (h : ∀ other, s.contextOf other = some cctx → other = owner) :
    (s.setContext cctx content).connectionOf = Function.update s.connectionOf owner
      ((s.setContext cctx content).connectionOf owner) := by
  funext other
  by_cases hother : other = owner
  · subst hother
    rw [Function.update_self]
  · rw [Function.update_of_ne hother]
    have hne : s.contextOf other ≠ some cctx := fun hsame => hother (h other hsame)
    cases other with
    | none =>
        simp only [connectionOf, setContext, contextOf] at hne ⊢
        cases hmain : s.main with
        | accepted c | closing c =>
            rw [hmain, MainAt.context] at hne
            exact Function.update_of_ne (fun hc => hne (congrArg some hc)) _ _
        | _ => rfl
    | some thread =>
        simp only [connectionOf, setContext, contextOf] at hne ⊢
        cases hthread : s.threads thread with
        | created c =>
            rw [hthread, ThreadAt.context] at hne
            exact Function.update_of_ne (fun hc => hne (congrArg some hc)) _ _
        | _ => rfl

end Update

/-! ## Every event keeps it -/

variable {s} {cctx fd thread : Nat} {descriptor : Option Descriptor}

private theorem fds_setFd : (s.setFd fd descriptor).fds = Function.update s.fds fd descriptor := rfl

private theorem Owned.only_listening (h : s.Owned) (hne : descriptor ≠ some .listening)
    (other : Nat)
    (hother : (s.setFd fd descriptor).fds other = some .listening) : other = s.listenFd := by
  by_cases hfd : other = fd
  · subst hfd
    rw [fds_setFd, Function.update_self] at hother
    exact absurd hother hne
  · rw [fds_setFd, Function.update_of_ne hfd] at hother
    exact h.listening other hother

private theorem Owned.still_listening (h : s.Owned) (hne : s.fds fd ≠ some .listening)
    (hrunning : s.running = true) :
    (s.setFd fd descriptor).fds s.listenFd = some .listening := by
  have hlistening := h.running hrunning
  rw [fds_setFd, Function.update_of_ne, hlistening]
  intro hsame
  rw [hsame] at hlistening
  exact hne hlistening

private theorem Owned.setMain (h : s.Owned) {main : MainAt}
    (hcontext : main.context = s.main.context)
    (hconnection : main.connection s.contexts = s.main.connection s.contexts) :
    (s.setMain main).Owned := by
  refine ⟨?_, ?_, h.listening, h.running⟩
  · rw [contextOf_setMain, hcontext, show s.main.context = s.contextOf none from rfl,
      Function.update_eq_self]
    exact h.contexts
  · rw [connectionOf_setMain, hconnection,
      show s.main.connection s.contexts = s.connectionOf none from rfl, Function.update_eq_self]
    exact h.connections

private theorem Owned.malloc (h : s.Owned) (hmain : s.main = .allocate) {garbage : Nat}
    (hfree : s.contexts cctx = none) :
    ((s.setContext cctx (some garbage)).setMain (.allocated cctx)).Owned := by
  have hnone : s.contextOf none = none := by rw [contextOf, hmain, MainAt.context]
  have hsame : none = s.connectionOf none := by rw [connectionOf, hmain, MainAt.connection]
  have hnobody : ∀ other, s.contextOf other = some cctx → other = none :=
    fun other hholds => absurd hfree (h.contexts.held other cctx hholds)
  refine ⟨?_, ?_, h.listening, h.running⟩
  · rw [contextOf_setMain]
    refine (h.contexts.acquire hnone (not_not_intro hfree)).congr fun c => ?_
    by_cases hc : c = cctx
    · simp [Process.setMain, setContext, hc]
    · simp [Process.setMain, setContext, Function.update_of_ne, hc]
  · rw [connectionOf_setMain, connectionOf_setContext hnobody, Function.update_idem,
      MainAt.connection]
    conv => arg 1; arg 3; rw [hsame]
    rw [Function.update_eq_self]
    exact h.connections

theorem Owned.accepted (h : s.Owned) {listening : Bool}
    (hmain : s.main = .accepting cctx listening) (hfree : s.fds fd = none) :
    (((s.setFd fd (some .connection)).setContext cctx (some fd)).setMain
      (.accepted cctx)).Owned := by
  have hcontext : some cctx = s.contextOf none := by rw [contextOf, hmain, MainAt.context]
  have hnone : s.connectionOf none = none := by rw [connectionOf, hmain, MainAt.connection]
  have hlive : s.contexts cctx ≠ none := h.contexts.held none cctx hcontext.symm
  have halone : ∀ other, (s.setFd fd (some .connection)).contextOf other = some cctx →
      other = none :=
    fun other hholds => h.contexts.unique other none cctx hholds hcontext.symm
  have hdead : ¬ s.fds fd = some .connection := by
    rw [hfree]
    exact nofun
  refine ⟨?_, ?_, h.only_listening nofun, h.still_listening (by rw [hfree]; exact nofun)⟩
  · rw [contextOf_setMain, MainAt.context, hcontext]
    have hsame := (Function.update_eq_self none s.contextOf).symm ▸ h.contexts
    refine hsame.congr fun c => ?_
    · by_cases hc : c = cctx
      · simp [Process.setMain, setContext, hc, hlive]
      · simp [Process.setMain, setContext, setFd, Function.update_of_ne, hc]
  · rw [connectionOf_setMain, connectionOf_setContext halone, Function.update_idem]
    have hvalue : MainAt.connection ((s.setFd fd (some .connection)).setContext cctx
        (some fd)).contexts (.accepted cctx) = some fd := Function.update_self ..
    rw [hvalue]
    refine (h.connections.acquire hnone hdead).congr fun d => ?_
    by_cases hd : d = fd
    · simp [Process.setMain, setContext, setFd, hd]
    · simp [Process.setMain, setContext, setFd, Function.update_of_ne, hd]

private theorem Owned.freed (h : s.Owned) (owner : Option Nat) (cctx : Nat)
    (hholds : s.contextOf owner = some cctx) (hnone : s.connectionOf owner = none) {s' : Process}
    (hcontext : s'.contextOf = Function.update s.contextOf owner none)
    (hconnection : s'.connectionOf =
      Function.update (s.setContext cctx none).connectionOf owner none)
    (hcontexts : s'.contexts = Function.update s.contexts cctx none) (hfds : s'.fds = s.fds)
    (hlisten : s'.listenFd = s.listenFd) (hrunning : s'.running = s.running) : s'.Owned := by
  have halone : ∀ other, s.contextOf other = some cctx → other = owner :=
    fun other hother => h.contexts.unique other owner cctx hother hholds
  refine ⟨?_, ?_, ?_, ?_⟩
  · rw [hcontext]
    refine (h.contexts.release hholds).congr fun c => ?_
    rw [hcontexts]
    by_cases hc : c = cctx
    · simp [hc]
    · simp [Function.update_of_ne, hc]
  · rw [hconnection, connectionOf_setContext halone, Function.update_idem, hfds]
    conv => arg 1; arg 3; rw [← hnone]
    rw [Function.update_eq_self]
    exact h.connections
  · rw [hfds, hlisten]
    exact h.listening
  · rw [hfds, hlisten, hrunning]
    exact h.running

private theorem Owned.acceptFailed (h : s.Owned) {listening : Bool}
    (hmain : s.main = .accepting cctx listening) :
    ((s.setContext cctx none).setMain .test).Owned := by
  refine h.freed none cctx ?_ ?_ contextOf_setMain connectionOf_setMain rfl rfl rfl rfl
  · rw [contextOf, hmain, MainAt.context]
  · rw [connectionOf, hmain, MainAt.connection]

theorem Owned.closed (h : s.Owned) (owner : Option Nat) (fd : Nat)
    (hholds : s.connectionOf owner = some fd) {s' : Process}
    (hcontext : s'.contextOf = s.contextOf)
    (hconnection : s'.connectionOf = Function.update s.connectionOf owner none)
    (hcontexts : s'.contexts = s.contexts) (hfds : s'.fds = Function.update s.fds fd none)
    (hlisten : s'.listenFd = s.listenFd) (hrunning : s'.running = s.running) : s'.Owned := by
  have hopen : s.fds fd = some .connection := h.connections.held owner fd hholds
  refine ⟨?_, ?_, ?_, ?_⟩
  · rw [hcontext, hcontexts]
    exact h.contexts
  · rw [hconnection]
    refine (h.connections.release hholds).congr fun d => ?_
    rw [hfds]
    by_cases hd : d = fd
    · simp [hd]
    · simp [Function.update_of_ne, hd]
  · rw [hfds, hlisten]
    exact h.only_listening nofun
  · rw [hfds, hlisten, hrunning]
    exact h.still_listening (by rw [hopen]; exact nofun)

theorem Owned.created (h : s.Owned) (hmain : s.main = .accepted cctx)
    (habsent : s.threads thread = .absent) (hopen : s.contexts cctx = some fd) :
    ((s.setThread thread (.created cctx)).setMain .test).Owned := by
  have hcontext : s.contextOf none = some cctx := by rw [contextOf, hmain, MainAt.context]
  have hconnection : s.connectionOf none = some fd := by
    rw [connectionOf, hmain, MainAt.connection, hopen]
  refine ⟨?_, ?_, h.listening, h.running⟩
  · rw [contextOf_setMain, contextOf_setThread, Function.update_comm (Option.some_ne_none _)]
    refine h.contexts.transfer hcontext ?_
    rw [contextOf, habsent, ThreadAt.context]
  · rw [connectionOf_setMain, connectionOf_setThread,
      Function.update_comm (Option.some_ne_none _),
      show ThreadAt.connection s.contexts (.created cctx) = some fd from hopen]
    refine h.connections.transfer hconnection ?_
    rw [connectionOf, habsent, ThreadAt.connection]

private theorem Owned.started (h : s.Owned) (hcreated : s.threads thread = .created cctx)
    (hopen : s.contexts cctx = some fd) : (s.setThread thread (.serving cctx fd)).Owned := by
  have hcontext : ThreadAt.context (.serving cctx fd) = s.contextOf (some thread) := by
    rw [contextOf, hcreated]
    rfl
  have hconnection : ThreadAt.connection s.contexts (.serving cctx fd) =
      s.connectionOf (some thread) := by
    rw [connectionOf, hcreated]
    exact hopen.symm
  refine ⟨?_, ?_, h.listening, h.running⟩
  · rw [contextOf_setThread, hcontext, Function.update_eq_self]
    exact h.contexts
  · rw [connectionOf_setThread, hconnection, Function.update_eq_self]
    exact h.connections

theorem Owned.stop (h : s.Owned) (hrunning : s.running = true) : s.stop.Owned := by
  have hlistening := h.running hrunning
  refine ⟨h.contexts, h.connections.congr fun d => ?_, h.only_listening nofun, nofun⟩
  by_cases hd : d = s.listenFd
  · simp [Process.stop, setFd, hd, hlistening]
  · simp [Process.stop, setFd, Function.update_of_ne, hd]

theorem Owned.file (h : s.Owned) (hbefore : s.fds fd = none ∨ s.fds fd = some .file)
    (hafter : descriptor = none ∨ descriptor = some .file) : (s.setFd fd descriptor).Owned := by
  refine ⟨h.contexts, h.connections.congr fun d => ?_, h.only_listening ?_,
    h.still_listening ?_⟩
  · by_cases hd : d = fd
    · rcases hbefore with hbefore | hbefore <;> rcases hafter with rfl | rfl <;>
        simp [setFd, hd, hbefore]
    · simp [setFd, Function.update_of_ne, hd]
  · rcases hafter with rfl | rfl <;> exact nofun
  · rcases hbefore with hbefore | hbefore <;> rw [hbefore] <;> exact nofun

private theorem Owned.exists_fd (h : s.Owned) (owner : Option Nat) (cctx : Nat)
    (hholds : s.contextOf owner = some cctx) : ∃ fd, s.contexts cctx = some fd :=
  Option.ne_none_iff_exists'.mp (h.contexts.held owner cctx hholds)

theorem Owned.step (h : s.Owned) {event : Event} (hsigint : event = .sigint → s.running = true) :
    (s.step event).Owned := by
  cases event with
  | test =>
      simp only [Process.step]
      split
      · rename_i hmain
        refine h.setMain ?_ ?_ <;> rw [hmain] <;> split <;> rfl
      · exact h
  | malloc block =>
      simp only [Process.step]
      split
      · rename_i cctx garbage hmain
        split
        · exact h.malloc hmain ‹_›
        · exact h
      · rename_i hmain
        refine h.setMain ?_ ?_ <;> rw [hmain] <;> rfl
      · exact h
  | accept =>
      simp only [Process.step]
      split
      · rename_i cctx hmain
        refine h.setMain ?_ ?_ <;> rw [hmain] <;> rfl
      · exact h
  | acceptReturns fd =>
      simp only [Process.step]
      split
      · rename_i cctx fd hmain
        split
        · exact h.accepted hmain ‹_›
        · exact h
      · rename_i cctx listening hmain
        split
        · exact h
        · exact h.acceptFailed hmain
      · exact h
  | acceptFails =>
      simp only [Process.step]
      split
      · rename_i cctx listening hmain
        exact h.acceptFailed hmain
      · exact h
  | pthreadCreate thread =>
      simp only [Process.step]
      split
      · rename_i cctx thread hmain
        split
        · obtain ⟨fd, hopen⟩ := h.exists_fd none cctx
            (by rw [contextOf, hmain, MainAt.context])
          exact h.created hmain ‹_› hopen
        · exact h
      · rename_i cctx hmain
        refine h.setMain ?_ ?_ <;> rw [hmain] <;> rfl
      · exact h
  | closeRefused =>
      simp only [Process.step]
      split
      · rename_i cctx hmain
        have hholds : s.contextOf none = some cctx := by rw [contextOf, hmain, MainAt.context]
        obtain ⟨fd, hopen⟩ := h.exists_fd none cctx hholds
        refine h.closed none fd ?_ ?_ connectionOf_setMain rfl ?_ rfl rfl
        · rw [connectionOf, hmain, MainAt.connection, hopen]
        · rw [contextOf_setMain, MainAt.context, ← hholds]
          exact Function.update_eq_self none s.contextOf
        · rw [Process.setMain, closeContext, hopen]
          rfl
      · exact h
  | freeRefused =>
      simp only [Process.step]
      split
      · rename_i cctx hmain
        refine h.freed none cctx ?_ ?_ contextOf_setMain
          connectionOf_setMain rfl rfl rfl rfl
        · rw [contextOf, hmain, MainAt.context]
        · rw [connectionOf, hmain, MainAt.connection]
      · exact h
  | start thread =>
      simp only [Process.step]
      split
      · rename_i cctx hthread
        obtain ⟨fd, hopen⟩ := h.exists_fd (some thread) cctx
          (by rw [contextOf, hthread, ThreadAt.context])
        rw [hopen]
        exact h.started hthread hopen
      · exact h
  | close thread =>
      simp only [Process.step]
      split
      · rename_i cctx fd hthread
        refine h.closed (some thread) fd ?_ ?_ connectionOf_setThread rfl rfl
          rfl rfl
        · rw [connectionOf, hthread, ThreadAt.connection]
        · have hholds : ThreadAt.context (.closed cctx) = s.contextOf (some thread) := by
            rw [contextOf, hthread]
            rfl
          rw [contextOf_setThread, hholds]
          exact Function.update_eq_self (some thread) s.contextOf
      · exact h
  | free thread =>
      simp only [Process.step]
      split
      · rename_i cctx hthread
        refine h.freed (some thread) cctx ?_ ?_ contextOf_setThread
          connectionOf_setThread rfl rfl rfl rfl
        · rw [contextOf, hthread, ThreadAt.context]
        · rw [connectionOf, hthread, ThreadAt.connection]
      · exact h
  | sigint => exact h.stop (hsigint rfl)
  | openFile fd =>
      simp only [Process.step]
      split
      · exact h.file (.inl ‹_›) (.inr rfl)
      · exact h
  | closeFile fd =>
      simp only [Process.step]
      split
      · exact h.file (.inr ‹_›) (.inl rfl)
      · exact h

/-! ## What an event touches -/

variable (s)

/-- The context that an event reads, writes or frees. -/
def touches : Event → Option Nat
  | .acceptReturns _ | .acceptFails | .closeRefused | .freeRefused => s.main.context
  | .start thread | .free thread => (s.threads thread).context
  | _ => none

/-- What it closes, and what the code takes this for. -/
def closes : Event → Option (Nat × Descriptor)
  | .closeRefused =>
      match s.main with
      | .closing cctx => some ((s.contexts cctx).getD 0, .connection)
      | _ => none
  | .close thread =>
      match s.threads thread with
      | .serving _ fd => some (fd, .connection)
      | _ => none
  | .sigint => some (s.listenFd, .listening)
  | _ => none

/-- No use after `free`, no second `free`, and no `close` of what is not one's own. -/
structure Sound (event : Event) : Prop where
  touches : ∀ cctx, s.touches event = some cctx → s.contexts cctx ≠ none
  closes : ∀ fd kind, s.closes event = some (fd, kind) → s.fds fd = some kind

variable {s}

theorem Owned.sound (h : s.Owned) {event : Event}
    (hsigint : event = .sigint → s.running = true) : s.Sound event := by
  refine ⟨fun cctx htouches => ?_, fun fd kind hcloses => ?_⟩
  · cases event with
    | acceptReturns | acceptFails | closeRefused | freeRefused =>
        exact h.contexts.held none cctx htouches
    | start thread | free thread => exact h.contexts.held (some thread) cctx htouches
    | _ => cases htouches
  · cases event with
    | closeRefused =>
        simp only [Process.closes] at hcloses
        split at hcloses
        · rename_i cctx hmain
          obtain ⟨open', hopen⟩ := h.exists_fd none cctx
            (by rw [contextOf, hmain, MainAt.context])
          rw [hopen] at hcloses
          cases hcloses
          exact h.connections.held none open' (by
            rw [connectionOf, hmain, MainAt.connection, hopen])
        · cases hcloses
    | close thread =>
        simp only [Process.closes] at hcloses
        split at hcloses
        · rename_i cctx fd' hthread
          cases hcloses
          exact h.connections.held (some thread) fd (by
            rw [connectionOf, hthread, ThreadAt.connection])
        · cases hcloses
    | sigint =>
        cases hcloses
        exact h.running (hsigint rfl)
    | _ => cases hcloses

/-! ## Runs -/

theorem Listening.owned (h : s.Listening) : s.Owned := by
  have hcontext : ∀ owner, s.contextOf owner = none := by
    intro owner
    cases owner with
    | none => rw [contextOf, h.main, MainAt.context]
    | some thread => rw [contextOf, h.threads, ThreadAt.context]
  have hconnection : ∀ owner, s.connectionOf owner = none := by
    intro owner
    cases owner with
    | none => rw [connectionOf, h.main, MainAt.connection]
    | some thread => rw [connectionOf, h.threads, ThreadAt.connection]
  refine ⟨⟨?_, ?_, ?_⟩, ⟨?_, ?_, ?_⟩, fun fd => (h.fds fd).mp,
    fun _ => (h.fds s.listenFd).mpr rfl⟩
  · intro owner cctx hholds
    rw [hcontext] at hholds
    cases hholds
  · intro owner _ cctx hholds
    rw [hcontext] at hholds
    cases hholds
  · intro cctx hlive
    exact absurd (h.contexts cctx) hlive
  · intro owner fd hholds
    rw [hconnection] at hholds
    cases hholds
  · intro owner _ fd hholds
    rw [hconnection] at hholds
    cases hholds
  · intro fd hlive
    exact absurd hlive (h.connections fd)

private theorem step_running {event : Event} (hevent : event ≠ .sigint) :
    (s.step event).running = s.running := by
  cases event with
  | sigint => exact absurd rfl hevent
  | _ =>
      simp only [Process.step]
      repeat' split
      all_goals rfl

private theorem run_running {events : List Event} (hevents : .sigint ∉ events) :
    (s.run events).running = s.running := by
  induction events generalizing s with
  | nil => rfl
  | cons event events ih =>
      rw [List.mem_cons, not_or] at hevents
      exact (ih hevents.2).trans (step_running (Ne.symm hevents.1))

private theorem running_of_count {events first rest : List Event} {event : Event}
    (hcount : events.count .sigint ≤ 1) (hsplit : events = first ++ event :: rest)
    (hevent : event = .sigint) : (s.run first).running = s.running := by
  refine run_running fun hmem => ?_
  have hfirst : 0 < first.count .sigint := List.count_pos_iff.mpr hmem
  rw [hsplit, hevent, List.count_append, List.count_cons_self] at hcount
  omega

private theorem Listening.run_owned (h : s.Listening) {events : List Event}
    (hcount : events.count .sigint ≤ 1) : (s.run events).Owned :=
  foldl_invariant_of_allowed
    (fun s event (hsigint : event = .sigint → s.running = true) hs => hs.step hsigint) h.owned
    fun _ _ _ hsplit hevent => (running_of_count hcount hsplit hevent).trans h.running

/-! ## After the stop -/

end Process

/-- How many moves are left to the accept loop once the server is stopped, at most. -/
def MainAt.rank : MainAt → Nat
  | .returned => 0
  | .test => 1
  | .freeing _ => 2
  | .closing _ => 3
  | .accepted _ => 4
  | .accepting _ _ => 5
  | .allocated _ => 6
  | .allocate => 7

def MainAt.credit : MainAt → Nat
  | .returned | .test | .freeing _ | .closing _ | .accepted _ => 0
  | .accepting _ _ | .allocated _ | .allocate => 1

namespace Process

variable (s : Process)

def moves (event : Event) : Bool := (s.step event).main ≠ s.main

def accepts : Event → Bool
  | .acceptReturns (some fd) =>
      match s.main with
      | .accepting _ true => s.fds fd = none
      | _ => false
  | _ => false

variable {s}

private theorem step_listening {event : Event} {fd : Nat}
    (h : (s.step event).fds fd = some .listening) : s.fds fd = some .listening := by
  have hset : ∀ other descriptor, descriptor ≠ some .listening →
      Function.update s.fds other descriptor fd = some .listening →
      s.fds fd = some .listening := by
    intro other descriptor hne hupdate
    by_cases hfd : fd = other
    · rw [hfd, Function.update_self] at hupdate
      exact absurd hupdate hne
    · rwa [Function.update_of_ne hfd] at hupdate
  revert h
  cases event with
  | acceptReturns | closeRefused | close | openFile | closeFile =>
      simp only [Process.step]
      repeat' split
      all_goals first | exact id | exact hset _ _ (by rintro ⟨⟩)
  | sigint => exact hset _ _ (by rintro ⟨⟩)
  | _ =>
      simp only [Process.step]
      repeat' split
      all_goals exact id

private theorem step_listenFd (event : Event) : (s.step event).listenFd = s.listenFd := by
  cases event with
  | sigint => rfl
  | _ =>
      simp only [Process.step]
      repeat' split
      all_goals rfl

structure Stopped (s : Process) : Prop where
  running : s.running = false
  closed : s.fds s.listenFd ≠ some .listening

private theorem stopped_sigint : (s.step .sigint).Stopped where
  running := rfl
  closed := by
    rw [step_listenFd]
    exact fun h => by
      rw [show (s.step .sigint).fds s.listenFd = none from Function.update_self ..] at h
      cases h

theorem Stopped.step (h : s.Stopped) (event : Event) : (s.step event).Stopped := by
  by_cases hevent : event = .sigint
  · exact hevent ▸ stopped_sigint
  · refine ⟨(step_running hevent).trans h.running, fun hlistening => h.closed ?_⟩
    rw [step_listenFd] at hlistening
    exact step_listening hlistening

theorem Stopped.run (h : s.Stopped) (events : List Event) : (s.run events).Stopped :=
  foldl_invariant (fun _ event h => h.step event) h events

private theorem run_stopped {events : List Event} (hstop : .sigint ∈ events) :
    (s.run events).Stopped := by
  obtain ⟨first, rest, rfl⟩ := List.append_of_mem hstop
  rw [Process.run, List.foldl_append, List.foldl_cons]
  exact stopped_sigint.run rest

private theorem rank_step (h : s.running = false) (event : Event) :
    (s.moves event).toNat + (s.step event).main.rank ≤ s.main.rank := by
  by_cases hsame : (s.step event).main = s.main
  · simp [moves, hsame]
  · have hmoves : (s.moves event).toNat = 1 := by simp [moves, hsame]
    rw [hmoves]
    revert hsame
    cases event with
    | test | malloc | accept | acceptReturns | acceptFails | pthreadCreate | closeRefused
    | freeRefused =>
        simp only [Process.step]
        repeat' split
        all_goals simp_all [Process.setMain, MainAt.rank]
    | start | close | free | openFile | closeFile =>
        simp only [Process.step]
        repeat' split
        all_goals exact fun hsame => absurd rfl hsame
    | sigint => exact fun hsame => absurd rfl hsame

private theorem credit_step (h : s.running = false) (event : Event) :
    (s.accepts event).toNat + (s.step event).main.credit ≤ s.main.credit := by
  cases event with
  | test | malloc | accept | acceptReturns | acceptFails | pthreadCreate | closeRefused
  | freeRefused =>
      simp only [Process.step, accepts]
      repeat' split
      all_goals simp_all [Process.setMain, MainAt.credit]
  | start | close | free | openFile | closeFile =>
      simp only [Process.step, accepts]
      repeat' split
      all_goals simp [setThread, setFd, setContext]
  | sigint => simp [accepts, Process.step, Process.stop, setFd]

private theorem Stopped.exists_moves (hstopped : s.Stopped) (hmain : s.main ≠ .returned) :
    ∃ event, event ≠ .acceptFails ∧ s.moves event = true := by
  have hclosed := hstopped.closed
  cases h : s.main with
  | test =>
      refine ⟨.test, by decide, ?_⟩
      simp only [moves, Process.step, h]
      split <;> simp [setMain]
  | allocate => exact ⟨.malloc none, by decide, by simp [moves, Process.step, h, setMain]⟩
  | allocated cctx => exact ⟨.accept, by decide, by simp [moves, Process.step, h, setMain]⟩
  | accepting cctx listening =>
      exact ⟨.acceptReturns none, by decide, by simp [moves, Process.step, h, setMain, hclosed]⟩
  | accepted cctx =>
      exact ⟨.pthreadCreate none, by decide, by simp [moves, Process.step, h, setMain]⟩
  | closing cctx => exact ⟨.closeRefused, by decide, by simp [moves, Process.step, h, setMain]⟩
  | freeing cctx => exact ⟨.freeRefused, by decide, by simp [moves, Process.step, h, setMain]⟩
  | returned => exact absurd h hmain

/-! ## What the whole life comes to -/

private theorem Owned.connectionOf_eq_none (hmain : s.main.context = none)
    (hthreads : ∀ thread, s.threads thread = .absent ∨ s.threads thread = .ended)
    (owner : Option Nat) : s.connectionOf owner = none := by
  cases owner with
  | none =>
      rw [connectionOf]
      cases h : s.main <;> simp_all [MainAt.context, MainAt.connection]
  | some thread =>
      rw [connectionOf]
      rcases hthreads thread with h | h <;> rw [h, ThreadAt.connection]

private theorem Owned.contextOf_eq_none (hmain : s.main.context = none)
    (hthreads : ∀ thread, s.threads thread = .absent ∨ s.threads thread = .ended)
    (owner : Option Nat) : s.contextOf owner = none := by
  cases owner with
  | none => exact hmain
  | some thread =>
      rw [contextOf]
      rcases hthreads thread with h | h <;> rw [h, ThreadAt.context]

end Process

/-- Until a second SIGINT the server never touches a freed context, frees or closes nothing
twice and closes only its own; once the clients are gone, nothing is left behind. -/
theorem resources_released_once {s : Process} (hs : s.Listening) {events : List Event}
    (hone : events.count .sigint ≤ 1) :
    (∀ first event rest, events = first ++ event :: rest → (s.run first).Sound event) ∧
      (s.run events).Owned ∧
      ((s.run events).main.context = none →
        (∀ thread, (s.run events).threads thread = .absent ∨
          (s.run events).threads thread = .ended) →
        (∀ cctx, (s.run events).contexts cctx = none) ∧
          ∀ fd, (s.run events).fds fd ≠ some .connection) := by
  have howned := hs.run_owned hone
  refine ⟨fun first event rest hsplit => ?_, howned, fun hmain hthreads => ⟨?_, ?_⟩⟩
  · have hfirst : first.count .sigint ≤ 1 := by
      rw [hsplit, List.count_append] at hone
      omega
    exact (hs.run_owned hfirst).sound fun hevent =>
      (Process.running_of_count hone hsplit hevent).trans hs.running
  · intro cctx
    by_contra hlive
    exact howned.contexts.none_live
      (Process.Owned.contextOf_eq_none hmain hthreads) cctx hlive
  · exact howned.connections.none_live (Process.Owned.connectionOf_eq_none hmain hthreads)

/-- Standard input, output and error, and the listening socket. -/
def listening : Process where
  running := true
  listenFd := 3
  fds fd := if fd < 3 then some .file else if fd = 3 then some .listening else none
  contexts _ := none
  main := .test
  threads _ := .absent

private theorem listening_listening : listening.Listening := by
  refine ⟨rfl, rfl, fun _ => rfl, fun _ => rfl, fun fd => ?_, fun fd => ?_⟩
  · simp only [listening]
    split
    · simp
      omega
    · simp
  · simp only [listening]
    split
    · nofun
    · split <;> nofun

/-- A client is served to the end, and the next one still when SIGINT arrives. -/
def interrupted : List Event :=
  [.test, .malloc (some (100, 0)), .accept, .acceptReturns (some 4), .pthreadCreate (some 0),
    .start 0, .openFile 5, .test, .malloc (some (200, 0)), .accept, .closeFile 5, .close 0,
    .acceptReturns (some 4), .free 0, .pthreadCreate (some 1), .sigint, .start 1, .test,
    .close 1, .free 1]

theorem resources_released_of_interrupted :
    (∀ first event rest, interrupted = first ++ event :: rest →
        (listening.run first).Sound event) ∧
      (listening.run interrupted).Owned ∧
      ((listening.run interrupted).main.context = none →
        (∀ thread, (listening.run interrupted).threads thread = .absent ∨
          (listening.run interrupted).threads thread = .ended) →
        (∀ cctx, (listening.run interrupted).contexts cctx = none) ∧
          ∀ fd, (listening.run interrupted).fds fd ≠ some .connection) :=
  resources_released_once listening_listening (by decide)

/-- A second SIGINT closes the connection that has got the number of the listening socket. -/
example : ((listening.run [.test, .malloc (some (100, 0)), .accept, .sigint,
    .acceptReturns (some 3), .pthreadCreate (some 0), .start 0]).closes .sigint,
    (listening.run [.test, .malloc (some (100, 0)), .accept, .sigint,
    .acceptReturns (some 3), .pthreadCreate (some 0), .start 0]).fds 3) =
    (some (3, .listening), some .connection) := by decide

/-- Once SIGINT has been caught, the accept loop takes one more connection at most, makes
seven moves at most and is never stuck: `accept` fails on the socket that is closed. -/
theorem stop_ends_accepting (s : Process) {stopping : List Event} (hstop : .sigint ∈ stopping)
    (events : List Event) :
    marks Process.step Process.accepts (s.run stopping) events ≤ 1 ∧
      marks Process.step Process.moves (s.run stopping) events ≤ 7 ∧
      (((s.run stopping).run events).main = .returned ∨
        ∃ event, event ≠ .acceptFails ∧
          ((s.run stopping).run events).moves event = true) := by
  have hstopped := Process.run_stopped (s := s) hstop
  refine ⟨?_, ?_, ?_⟩
  · have hcredit : marks Process.step Process.accepts (s.run stopping) events + _ ≤ _ :=
      marks_add_le (fun s : Process => s.main.credit) (fun s event h => h.step event)
        (fun s event (h : s.Stopped) => Process.credit_step h.running event) hstopped events
    have hmost : (s.run stopping).main.credit ≤ 1 := by
      cases (s.run stopping).main <;> simp [MainAt.credit]
    omega
  · have hrank : marks Process.step Process.moves (s.run stopping) events + _ ≤ _ :=
      marks_add_le (fun s : Process => s.main.rank) (fun s event h => h.step event)
        (fun s event (h : s.Stopped) => Process.rank_step h.running event) hstopped events
    have hmost : (s.run stopping).main.rank ≤ 7 := by
      cases (s.run stopping).main <;> simp [MainAt.rank]
    omega
  · by_cases hmain : ((s.run stopping).run events).main = .returned
    · exact .inl hmain
    · exact .inr ((hstopped.run events).exists_moves hmain)

/-- SIGINT arrives while the accept loop waits for a connection. -/
def waiting : List Event := [.test, .malloc (some (100, 0)), .accept, .sigint]

theorem stop_ends_accepting_of_waiting :
    (listening.run waiting).main = .accepting 100 true ∧
      marks Process.step Process.accepts (listening.run waiting) [.acceptReturns none] ≤ 1 ∧
      marks Process.step Process.moves (listening.run waiting) [.acceptReturns none] ≤ 7 ∧
      (((listening.run waiting).run [.acceptReturns none]).main = .returned ∨
        ∃ event, event ≠ .acceptFails ∧
          ((listening.run waiting).run [.acceptReturns none]).moves event = true) :=
  ⟨by decide, stop_ends_accepting listening (show Event.sigint ∈ waiting by decide)
    [.acceptReturns none]⟩

end Lifecycle

end BankingSystem
