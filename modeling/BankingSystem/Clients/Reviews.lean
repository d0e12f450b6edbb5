import Mathlib.Data.Fin.VecNotation
import BankingSystem.Clients.SystemCalls
import BankingSystem.Requests.Alone

/-!
# Reviews between appended feedback

`review_feedbacks` rewrites records in the middle of `feedback.db` while `add_feedback`
appends to its end.  A record that has been read at a position is still there when it
is written back, up to its flag, since nothing else of a record ever changes.
-/

namespace BankingSystem

open Foundation Posix

variable {M : Type}

/-! ## The file -/

def FeedbackRec.unmarked (fb : FeedbackRec) : FeedbackRec := { fb with reviewed := 0 }

/-- Records have been added at the end, and none has lost its flag. -/
structure Grown (before added after : List FeedbackRec) : Prop where
  same : after.map FeedbackRec.unmarked = (before ++ added).map FeedbackRec.unmarked
  marked : ∀ (pos : Nat) (fb : FeedbackRec), before[pos]? = some fb → fb.reviewed ≠ 0 →
    ∃ fb' : FeedbackRec, after[pos]? = some fb' ∧ fb'.reviewed ≠ 0

namespace Grown

variable {before middle after first second : List FeedbackRec}

theorem refl (records : List FeedbackRec) : Grown records [] records where
  same := by rw [List.append_nil]
  marked _ fb hfb hmarked := ⟨fb, hfb, hmarked⟩

theorem trans (h : Grown before first middle) (h' : Grown middle second after) :
    Grown before (first ++ second) after where
  same := by
    rw [h'.same, List.map_append, h.same, ← List.map_append, List.append_assoc]
  marked pos fb hfb hmarked := by
    obtain ⟨fb₁, hfb₁, hmarked₁⟩ := h.marked pos fb hfb hmarked
    exact h'.marked pos fb₁ hfb₁ hmarked₁

theorem append (records : List FeedbackRec) (fb : FeedbackRec) :
    Grown records [fb] (records ++ [fb]) where
  same := rfl
  marked pos fb' hfb hmarked := by
    have hlt : pos < records.length := (List.getElem?_eq_some_iff.mp hfb).1
    exact ⟨fb', by rwa [List.getElem?_append_left hlt], hmarked⟩

private theorem mark {records : List FeedbackRec} {pos : Nat} {fb : FeedbackRec}
    (h : (records.map FeedbackRec.unmarked)[pos]? = some fb.unmarked) :
    Grown records [] (records.set pos { fb with reviewed := 1 }) where
  same := by
    have hlt : pos < records.length := by
      have hmapped := (List.getElem?_eq_some_iff.mp h).1
      rwa [List.length_map] at hmapped
    have hsame : ({ fb with reviewed := 1 } : FeedbackRec).unmarked = fb.unmarked := rfl
    rw [List.append_nil, List.map_set, hsame]
    refine List.ext_getElem? fun i => ?_
    rw [List.getElem?_set]
    by_cases hi : pos = i
    · rw [if_pos hi, List.length_map, if_pos hlt, ← hi, h]
    · rw [if_neg hi]
  marked i fb' hfb hmarked := by
    by_cases hi : pos = i
    · subst hi
      have hlt : pos < records.length := (List.getElem?_eq_some_iff.mp hfb).1
      exact ⟨{ fb with reviewed := 1 }, by simp [hlt], Nat.one_ne_zero⟩
    · exact ⟨fb', by rwa [List.getElem?_set_ne hi], hmarked⟩

theorem keeps {added : List FeedbackRec} (h : Grown before added after) {pos : Nat}
    {fb : FeedbackRec} (hfb : (before.map FeedbackRec.unmarked)[pos]? = some fb) :
    (after.map FeedbackRec.unmarked)[pos]? = some fb := by
  have hlt := (List.getElem?_eq_some_iff.mp hfb).1
  rw [h.same, List.map_append, List.getElem?_append_left hlt, hfb]

end Grown

/-! ## One thread -/

/-- The record that has been read and may be written back, and the records appended. -/
structure Reviewing where
  seen : Option (Nat × FeedbackRec)
  added : List FeedbackRec

def reviewProtocol (M : Type) : Protocol (Sys M) Reviewing where
  allows g
    | .read _ fd => fd.access ≠ .writeOnly
    | .write .feedback fd fb => fd.access ≠ .readOnly ∧ (fd.append = true ∨
        ∃ fb', g.seen = some (fd.pos, fb') ∧ fb = { fb' with reviewed := 1 })
    | .write _ _ _ => False
    | _ => True
  answers _
    | .openFile _ flags, fd =>
        fd = some ⟨flags.access, flags.append, 0⟩ ∨ fd = none ∧ flags.create = false
    | _, _ => True
  next g
    | .read .feedback fd, some fb => { g with seen := some (fd.pos, fb) }
    | .write .feedback fd fb, _ =>
        if fd.append then { g with added := g.added ++ [fb] } else { g with seen := none }
    | _, _ => g

section Follows

variable {g : Reviewing} {fuel : Nat}

private theorem review_follows_reviewAll (fd : Fd DbFile.feedback)
    (haccess : fd.access = .readWrite) (happend : fd.append = false) :
    (reviewProtocol M).Follows (fun g' _ => g'.added = g.added) g (Sys.reviewAll fuel fd) := by
  have hread : fd.access ≠ .writeOnly := by simp [haccess]
  induction fuel generalizing fd g with
  | zero => exact ⟨trivial, fun answer => answer.elim⟩
  | succ fuel ih =>
      refine Sys.follows_bind hread fun result _ => ?_
      cases result with
      | none => exact rfl
      | some fb =>
          have hnext : ∀ g', g'.added = g.added →
              (reviewProtocol M).Follows (fun g'' _ => g''.added = g.added) g' (do
                let rest ← Sys.reviewAll fuel (fd.seek (fd.pos + 1))
                return fb :: rest) := by
            intro g' hg'
            refine (ih (g := g') (fd.seek (fd.pos + 1)) haccess happend hread).bind ?_
            exact fun g'' rest hrest => hrest.trans hg'
          by_cases hreviewed : fb.reviewed = 0
          · simp only [hreviewed, if_true]
            refine Sys.follows_bind (M := M) ?_ fun _ _ => hnext _ ?_
            · exact ⟨by simp [haccess], .inr ⟨fb, rfl, rfl⟩⟩
            · simp [reviewProtocol, happend]
          · simp only [hreviewed, if_false]
            exact hnext _ rfl

private theorem review_follows_markReviewed :
    (reviewProtocol M).Follows (fun g' _ => g'.added = g.added) g
      (Sys.markReviewed fuel) := by
  refine Sys.follows_bind trivial fun fd hfd => ?_
  obtain rfl | ⟨rfl, -⟩ := hfd
  · refine Sys.follows_bind (M := M) trivial fun _ _ => ?_
    refine (review_follows_reviewAll _ rfl rfl).bind fun g' records hg' => ?_
    refine Sys.follows_bind (M := M) trivial fun _ _ => ?_
    exact Sys.follows_bind (M := M) trivial fun _ _ => hg'
  · exact rfl

private theorem review_follows_appendFeedback (fb : FeedbackRec) :
    (reviewProtocol M).Follows (fun g' result => ∃ fbId, result = some fbId ∧
      g'.added = g.added ++ [{ fb with fbId }]) g (Sys.appendFeedback fb) := by
  refine Sys.follows_bind trivial fun fd hfd => ?_
  obtain rfl | ⟨-, hcreate⟩ := hfd
  · refine Sys.follows_bind (M := M) trivial fun _ _ => ?_
    refine Sys.follows_bind (M := M) trivial fun count _ => ?_
    refine Sys.follows_bind (M := M) ⟨by simp, .inl rfl⟩ fun _ _ => ?_
    refine Sys.follows_bind (M := M) trivial fun _ _ => ?_
    exact Sys.follows_bind (M := M) trivial fun _ _ => ⟨count + 1, rfl, rfl⟩
  · cases hcreate

end Follows

/-! ## The calls of a client -/

inductive FeedbackCall where
  | review
  | add (userId : Nat) (msg : Bytes)

def FeedbackCall.request : FeedbackCall → Request M
  | .review => .reviewFeedback
  | .add userId msg => .addFeedback userId msg

def newFeedback (fbId userId : Nat) (msg : Bytes) (now : Time) : FeedbackRec :=
  ⟨fbId, userId, .ofText msg, 0, .zero _, now⟩

/-- The records that the calls append, each with the number that its reply tells. -/
inductive Submitted : List FeedbackCall → List Reply → List FeedbackRec → Prop
  | nil : Submitted [] [] []
  | review {calls replies records} (reply : Reply) (h : Submitted calls replies records) :
      Submitted (.review :: calls) (reply :: replies) records
  | add {calls replies records} (userId : Nat) (msg : Bytes) (fbId : Nat) (now : Time)
      (h : Submitted calls replies records) :
      Submitted (.add userId msg :: calls)
        (.say true (str "Feedback Submitted (ID: " ++ dec fbId ++ str "). Thank you!") ::
          replies) (newFeedback fbId userId msg now :: records)

section Follows

variable [Amount M] {g : Reviewing} {fuel : Nat} (env : Env)

private theorem review_follows_review :
    (reviewProtocol M).Follows (fun g' _ => g'.added = g.added) g
      (Sys.expand fuel (Request.reviewFeedback.program env)) := by
  refine review_follows_markReviewed.bind fun g' records hg' => ?_
  cases records with
  | none => exact hg'
  | some records =>
      change (reviewProtocol M).Follows _ g' (Prog.expand _ (if _ then _ else _))
      split <;> exact hg'

private theorem review_follows_add (userId : Nat) (msg : Bytes) :
    (reviewProtocol M).Follows (fun g' reply => ∃ fbId now, g'.added =
        g.added ++ [newFeedback fbId userId msg now] ∧
      reply = .say true (str "Feedback Submitted (ID: " ++ dec fbId ++ str "). Thank you!")) g
      (Sys.expand fuel ((Request.addFeedback userId msg).program env)) := by
  refine ⟨trivial, fun now _ => ?_⟩
  refine (review_follows_appendFeedback _).bind fun g' result hresult => ?_
  obtain ⟨fbId, rfl, hadded⟩ := hresult
  exact ⟨fbId, now, hadded, rfl⟩

private theorem review_follows_session (calls : List FeedbackCall) :
    (reviewProtocol M).Follows (fun g' replies => ∃ records,
      g'.added = g.added ++ records ∧ Submitted calls replies records) g
      (Sys.expand fuel (Request.session env (calls.map FeedbackCall.request))) := by
  induction calls generalizing g with
  | nil => exact ⟨[], (List.append_nil _).symm, .nil⟩
  | cons call calls ih =>
      rw [List.map_cons, Request.session, Sys.expand, Prog.expand_bind]
      cases call with
      | review =>
          refine (review_follows_review env).bind fun g₁ reply hadded => ?_
          rw [Prog.expand_bind]
          refine ih.bind fun g₂ replies hreplies => ?_
          obtain ⟨records, hrecords, hsubmitted⟩ := hreplies
          exact ⟨records, by rw [hrecords, hadded], hsubmitted.review reply⟩
      | add userId msg =>
          refine (review_follows_add env userId msg).bind fun g₁ reply hadded => ?_
          obtain ⟨fbId, now, hadded, rfl⟩ := hadded
          rw [Prog.expand_bind]
          refine ih.bind fun g₂ replies hreplies => ?_
          obtain ⟨records, hrecords, hsubmitted⟩ := hreplies
          refine ⟨newFeedback fbId userId msg now :: records, ?_, hsubmitted.add ..⟩
          rw [hrecords, hadded, List.append_assoc, List.singleton_append]

end Follows

/-! ## All threads -/

def appendedBy : Call DbFile (DbFile.Rec M) → Option FeedbackRec
  | .write .feedback fd fb => if fd.append then some fb else none
  | _ => none

variable {ι : Type}

def appended (calls : List (ι × Call DbFile (DbFile.Rec M))) : List (ι × FeedbackRec) :=
  calls.filterMap fun issued => (appendedBy issued.2).map (issued.1, ·)

def appendedOf [DecidableEq ι] (i : ι) (calls : List (ι × Call DbFile (DbFile.Rec M))) :
    List FeedbackRec :=
  ((appended calls).filter fun record => record.1 = i).map Prod.snd

private theorem appended_concat (past : List (ι × Call DbFile (DbFile.Rec M))) (i : ι)
    (call : Call DbFile (DbFile.Rec M)) :
    appended (past ++ [(i, call)]) =
      appended past ++ ((appendedBy call).map (i, ·)).toList := by
  rw [appended, List.filterMap_append]
  cases hcall : appendedBy call <;> simp [appended, hcall]

private theorem map_snd_appended_concat (past : List (ι × Call DbFile (DbFile.Rec M))) (i : ι)
    (call : Call DbFile (DbFile.Rec M)) :
    (appended (past ++ [(i, call)])).map Prod.snd =
      (appended past).map Prod.snd ++ (appendedBy call).toList := by
  rw [appended_concat, List.map_append]
  cases appendedBy call <;> rfl

private theorem appendedOf_concat [DecidableEq ι] (past : List (ι × Call DbFile (DbFile.Rec M)))
    (i j : ι) (call : Call DbFile (DbFile.Rec M)) :
    appendedOf j (past ++ [(i, call)]) =
      appendedOf j past ++ if j = i then (appendedBy call).toList else [] := by
  rw [appendedOf, appended_concat, List.filter_append, List.map_append, ← appendedOf]
  congr 1
  cases appendedBy call with
  | none => simp
  | some fb =>
      by_cases hj : j = i
      · simp [hj]
      · simp [hj, Ne.symm hj]

/-- What each thread has read and may write back is still there, up to its flag. -/
def InPlace (k : Machine M) (g : ι → Reviewing) : Prop :=
  ∀ i pos fb, (g i).seen = some (pos, fb) →
    ((k.content .feedback).map FeedbackRec.unmarked)[pos]? = some fb.unmarked

section Steps

variable {k k' : Machine M} {server : Nat} {call : Call DbFile (DbFile.Rec M)}
  {result : Result (DbFile.Rec M) call}

private theorem grown_of_allows {g : Reviewing} (hallow : (reviewProtocol M).allows g call)
    (hseen : ∀ pos fb, g.seen = some (pos, fb) →
      ((k.content .feedback).map FeedbackRec.unmarked)[pos]? = some fb.unmarked)
    (hexec : Posix.exec server call k = some (result, k')) :
    Grown (k.content .feedback) (appendedBy call).toList (k'.content .feedback) := by
  cases call with
  | write f fd fb =>
      cases f with
      | feedback =>
          obtain ⟨haccess, hkind⟩ := hallow
          simp only [exec, if_neg haccess, Option.some_inj, Prod.mk.injEq] at hexec
          rw [← hexec.2, k.content_setFile_self, writePos, appendedBy]
          cases happend : fd.append with
          | true =>
              simp only [if_true, Table.put_length]
              exact .append _ fb
          | false =>
              obtain ⟨fb', hread, rfl⟩ := hkind.resolve_left (by simp [happend])
              have hsame := hseen fd.pos fb' hread
              have hlt := (List.getElem?_eq_some_iff.mp hsame).1
              rw [List.length_map] at hlt
              simp only [Bool.false_eq_true, if_false, Table.put_of_lt hlt]
              exact .mark hsame
      | users | accounts | transactions | loans => exact hallow.elim
  | openFile f flags | setLockWait f fd kind range | read f fd | seekEnd f fd | close f fd
  | time =>
      rw [content_exec_of_ne_write hexec (fun _ _ _ hcall => by cases hcall) .feedback]
      exact .refl _
  | stall => cases hexec

private theorem seen_of_allows {g : Reviewing} (hallow : (reviewProtocol M).allows g call)
    (hexec : Posix.exec server call k = some (result, k')) {pos : Nat} {fb : FeedbackRec}
    (hseen : ((reviewProtocol M).next g call result).seen = some (pos, fb)) :
    g.seen = some (pos, fb) ∨ (k.content .feedback)[pos]? = some fb := by
  cases call with
  | read f fd =>
      cases f with
      | feedback =>
          simp only [exec, if_neg hallow, Option.some_inj, Prod.mk.injEq] at hexec
          cases result with
          | none => exact .inl hseen
          | some fb' =>
              cases hseen
              exact .inr hexec.1
      | users | accounts | transactions | loans => exact .inl hseen
  | write f fd fb' =>
      cases f with
      | feedback =>
          cases happend : fd.append with
          | true =>
              simp only [reviewProtocol, happend, if_true] at hseen
              exact .inl hseen
          | false => simp [reviewProtocol, happend] at hseen
      | users | accounts | transactions | loans => exact .inl hseen
  | openFile f flags | setLockWait f fd kind range | seekEnd f fd | close f fd | time =>
      exact .inl hseen
  | stall => cases hexec

private theorem added_of_next (g : Reviewing) (call : Call DbFile (DbFile.Rec M))
    (result : Result (DbFile.Rec M) call) :
    ((reviewProtocol M).next g call result).added = g.added ++ (appendedBy call).toList := by
  have hquiet : g.added = g.added ++ [] := (List.append_nil _).symm
  cases call with
  | read f fd =>
      cases f with
      | feedback => cases result <;> exact hquiet
      | users | accounts | transactions | loans => exact hquiet
  | write f fd fb =>
      cases f with
      | feedback => cases happend : fd.append <;> simp [reviewProtocol, appendedBy, happend]
      | users | accounts | transactions | loans => exact hquiet
  | openFile | setLockWait | seekEnd | close | time => exact hquiet
  | stall => exact result.elim

variable [DecidableEq ι] {g : ι → Reviewing} {i : ι}

private theorem review_sound (proc : ι → Nat) :
    Protocol.Sound (fun _ : ι => reviewProtocol M) (Posix.semantics proc) InPlace
      fun _ _ _ => True where
  step {k k' g i call result} h _ hallow hexec := by
    refine ⟨?_, fun j pos fb hseen => ?_⟩
    · cases call with
      | openFile f flags => exact openFile_result hexec
      | setLockWait | read | write | seekEnd | close | time | stall => exact trivial
    · have hgrown := grown_of_allows hallow (h i) hexec
      by_cases hj : j = i
      · subst hj
        rw [Function.update_self] at hseen
        rcases seen_of_allows hallow hexec hseen with hold | hread
        · exact hgrown.keeps (h j pos fb hold)
        · exact hgrown.keeps (by rw [List.getElem?_map, hread, Option.map_some])
      · rw [Function.update_of_ne hj] at hseen
        exact hgrown.keeps (h j pos fb hseen)

end Steps

/-! ## Every interleaving -/

/-- What the calls have done to the file and to what each thread has appended. -/
structure Reviewed [DecidableEq ι] (start : List FeedbackRec) (base : ι → List FeedbackRec)
    (past : List (ι × Call DbFile (DbFile.Rec M))) (k : Machine M) (g : ι → Reviewing) :
    Prop where
  grown : Grown start ((appended past).map Prod.snd) (k.content .feedback)
  added : ∀ i, (g i).added = base i ++ appendedOf i past

section Runs

variable [DecidableEq ι] {start : List FeedbackRec} {base : ι → List FeedbackRec}
  {past : List (ι × Call DbFile (DbFile.Rec M))} {k k' : Machine M} {g : ι → Reviewing} {i : ι}
  {call : Call DbFile (DbFile.Rec M)} {result : Result (DbFile.Rec M) call} {server : Nat}

theorem Reviewed.step (h : Reviewed start base past k g) (hplace : InPlace k g)
    (hallow : (reviewProtocol M).allows (g i) call)
    (hexec : Posix.exec server call k = some (result, k')) :
    Reviewed start base (past ++ [(i, call)]) k'
      (Function.update g i ((reviewProtocol M).next (g i) call result)) where
  grown := by
    rw [map_snd_appended_concat]
    exact h.grown.trans (grown_of_allows hallow (hplace i) hexec)
  added j := by
    rw [appendedOf_concat]
    by_cases hj : j = i
    · subst hj
      rw [Function.update_self, added_of_next, h.added, if_pos rfl, List.append_assoc]
    · rw [Function.update_of_ne hj, if_neg hj, List.append_nil, h.added]

variable [Amount M] (env : Env)

def feedbackPool (fuel : ι → Nat) (calls : ι → List FeedbackCall) (k : Machine M) :
    Pool (Sys M) (Machine M) ι (List Reply) :=
  ⟨k, fun i => Sys.expand (fuel i) (Request.session env ((calls i).map FeedbackCall.request))⟩

abbrev ExplainsReviews (calls : ι → List FeedbackCall)
    (pool : Pool (Sys M) (Machine M) ι (List Reply)) (g : ι → Reviewing) : Prop :=
  Protocol.Explains (fun _ => reviewProtocol M) InPlace
    (fun i g replies => Submitted (calls i) replies g.added) pool g

omit [DecidableEq ι] in
private theorem feedbackPool_explained (fuel : ι → Nat) (calls : ι → List FeedbackCall)
    (k : Machine M) :
    ExplainsReviews calls (feedbackPool env fuel calls k) fun _ => ⟨none, []⟩ := by
  refine ⟨fun i pos fb hseen => by simp at hseen, fun i => ?_⟩
  refine (review_follows_session env (calls i)).imp fun g replies hreplies => ?_
  obtain ⟨records, hadded, hsubmitted⟩ := hreplies
  rwa [hadded, List.nil_append]

omit [Amount M] in
private theorem review_run {proc : ι → Nat} {calls : ι → List FeedbackCall} {schedule : List ι}
    {pool pool' : Pool (Sys M) (Machine M) ι (List Reply)} (h : ExplainsReviews calls pool g)
    (hrun : Pool.run (Posix.semantics proc) schedule pool = some pool') :
    ∃ g', ExplainsReviews calls pool' g' ∧
      Reviewed (pool.state.content .feedback) (fun i => (g i).added)
        (Pool.issued (Posix.semantics proc) schedule pool) pool'.state g' := by
  have hstart : Reviewed (pool.state.content .feedback) (fun i => (g i).added) []
      pool.state g := ⟨.refl _, fun i => (List.append_nil _).symm⟩
  have halong : Pool.Along (Posix.semantics proc) (Pool.Guard fun _ _ _ => True) schedule
      pool := Pool.along_of_always (fun _ _ _ _ _ => trivial) schedule pool
  exact (review_sound proc).run_history (fun hreviewed hplace => hreviewed.step hplace) h
    hstart halong hrun

end Runs

private theorem review_alone [Amount M] (env : Env) {p fuel : Nat} {k : Machine M}
    (howned : k.OwnedBy p) (hfuel : (k.content .feedback).length < fuel) :
    ∃ reply k', Prog.Ends (Posix.exec p)
        (Sys.expand fuel (Request.reviewFeedback.program env)) k reply k' ∧ k'.OwnedBy p ∧
      k'.files .feedback = (k.files .feedback).map (List.map FeedbackRec.markReviewed) := by
  obtain ⟨k', hends, hdisk, howned'⟩ := howned.ends (Sys.markReviewed_ends hfuel)
  have hfiles : k'.files .feedback =
      (k.files .feedback).map (List.map FeedbackRec.markReviewed) := by
    change k'.disk.files .feedback = (k.disk.files .feedback).map _
    rw [hdisk]
    cases hfile : k.disk.files .feedback with
    | none => exact hfile
    | some records => exact Disk.files_setFile_self ..
  suffices hreply : ∃ reply, Prog.Ends (Posix.exec p)
      (Sys.expand fuel (Request.reviewFeedback.program env)) k reply k' by
    obtain ⟨reply, hreply⟩ := hreply
    exact ⟨reply, k', hreply, howned', hfiles⟩
  simp only [Request.program, reviewFeedbacks, Db.markReviewed_bind, Sys.expand,
    Prog.expand_call, Sys.helper]
  cases hrecords : k.disk.files .feedback with
  | none =>
      rw [hrecords] at hends
      exact ⟨_, hends.bind .ret⟩
  | some records =>
      rw [hrecords] at hends
      by_cases hnone : (records.filter fun fb => fb.reviewed = 0).isEmpty = true
      · exact ⟨_, hends.bind (by simp only [if_pos hnone]; exact .ret)⟩
      · exact ⟨_, hends.bind (by simp only [if_neg hnone]; exact .ret)⟩

private theorem FeedbackRec.reviewed_markReviewed (fb : FeedbackRec) :
    fb.markReviewed.reviewed ≠ 0 := by
  rw [FeedbackRec.markReviewed]
  split
  · exact Nat.one_ne_zero
  · assumption

private theorem FeedbackRec.markReviewed_markReviewed (fb : FeedbackRec) :
    fb.markReviewed.markReviewed = fb.markReviewed :=
  if_neg fb.reviewed_markReviewed

/--
`review_feedbacks` and `add_feedback`, called any number of times by any threads of any
processes and interleaved system call by system call.  The file holds the records that it
held before and those that have been appended, in this order and unchanged but for their
flags; a thread that has returned has appended the records that it submitted; and no flag
is ever cleared.  A call that runs alone leaves no record unreviewed, and the next one
changes nothing.
-/
theorem reviews_lose_nothing [Amount M] [DecidableEq ι] (env : Env) (proc fuel : ι → Nat)
    (calls : ι → List FeedbackCall) (k : Machine M) (schedule : List ι)
    (pool : Pool (Sys M) (Machine M) ι (List Reply))
    (hrun : Pool.run (Posix.semantics proc) schedule (feedbackPool env fuel calls k) =
      some pool) :
    (pool.state.content .feedback).map FeedbackRec.unmarked = (k.content .feedback ++
      (appended (Pool.issued (Posix.semantics proc) schedule
        (feedbackPool env fuel calls k))).map Prod.snd).map FeedbackRec.unmarked ∧
    (∀ i replies, pool.Returned i replies → Submitted (calls i) replies
      (appendedOf i (Pool.issued (Posix.semantics proc) schedule
        (feedbackPool env fuel calls k)))) ∧
    (∀ first second middle, schedule = first ++ second →
      Pool.run (Posix.semantics proc) first (feedbackPool env fuel calls k) = some middle →
      ∀ (pos : Nat) (fb : FeedbackRec), (middle.state.content .feedback)[pos]? = some fb →
        fb.reviewed ≠ 0 → ∃ fb' : FeedbackRec,
          (pool.state.content .feedback)[pos]? = some fb' ∧ fb'.reviewed ≠ 0) ∧
    (∀ p (k : Machine M) fuel, k.OwnedBy p → (k.content .feedback).length < fuel →
      ∃ reply k', Prog.Ends (Posix.exec p)
          (Sys.expand fuel (Request.reviewFeedback.program env)) k reply k' ∧
        (∀ fb ∈ k'.content .feedback, FeedbackRec.reviewed fb ≠ 0) ∧
        ∃ reply' k'', Prog.Ends (Posix.exec p)
          (Sys.expand fuel (Request.reviewFeedback.program env)) k' reply' k'' ∧
        k''.files .feedback = k'.files .feedback) := by
  have hinit := feedbackPool_explained env fuel calls k
  refine ⟨?_, fun i replies hreturned => ?_, fun first second middle hsplit hfirst => ?_,
    fun p k fuel howned hfuel => ?_⟩
  · obtain ⟨g, -, hreviewed⟩ := review_run hinit hrun
    exact hreviewed.grown.same
  · obtain ⟨g, hexplains, hreviewed⟩ := review_run hinit hrun
    have hsubmitted := hexplains.returned hreturned
    rwa [hreviewed.added i, List.nil_append] at hsubmitted
  · subst hsplit
    obtain ⟨middle', hfirst', hsecond⟩ := Pool.run_append_eq_some_iff.mp hrun
    rw [hfirst] at hfirst'
    cases hfirst'
    obtain ⟨g, hexplains, -⟩ := review_run hinit hfirst
    obtain ⟨g', -, hreviewed⟩ := review_run hexplains hsecond
    exact hreviewed.grown.marked
  · obtain ⟨reply, k', hends, howned', hfiles⟩ := review_alone env howned hfuel
    have hcontent : k'.content .feedback =
        (k.content .feedback).map FeedbackRec.markReviewed := by
      rw [Kernel.content, hfiles, Kernel.content]
      cases k.files .feedback <;> rfl
    have hfuel' : (k'.content .feedback).length < fuel := by
      rwa [hcontent, List.length_map]
    obtain ⟨reply', k'', hends', -, hfiles'⟩ := review_alone env howned' hfuel'
    refine ⟨reply, k', hends, fun fb hfb => ?_, reply', k'', hends', ?_⟩
    · rw [hcontent] at hfb
      obtain ⟨fb', -, rfl⟩ := List.mem_map.mp hfb
      exact fb'.reviewed_markReviewed
    · rw [hfiles', hfiles, Option.map_map]
      congr 1
      funext records
      simp [FeedbackRec.markReviewed_markReviewed]

def oneFeedback : Machine ℚ where
  files
    | .feedback => some [newFeedback 1 1001 (str "slow") 5]
    | _ => none
  locks := []
  clock _ := 9

def reviewAndAdd : Pool (Sys ℚ) (Machine ℚ) (Fin 2) (List Reply) :=
  feedbackPool .plain (fun _ => 3) ![[.review], [.add 1002 (str "late")]] oneFeedback

/-- The second record arrives when the first one has been read and not yet marked. -/
theorem reviews_lose_nothing_late : ∃ pool,
    Pool.run (Posix.semantics fun _ => 7) [0, 0, 0, 1, 1, 1, 1, 1, 0, 0, 0, 0, 0, 0, 1, 1]
      reviewAndAdd = some pool ∧
    (pool.state.content .feedback).map FeedbackRec.unmarked =
      [newFeedback 1 1001 (str "slow") 5, newFeedback 2 1002 (str "late") 9] := by
  have hsome : (Pool.run (Posix.semantics fun _ => 7)
      [0, 0, 0, 1, 1, 1, 1, 1, 0, 0, 0, 0, 0, 0, 1, 1] reviewAndAdd).isSome = true := by
    decide +kernel
  obtain ⟨pool, hrun⟩ := Option.isSome_iff_exists.mp hsome
  have hkept := (reviews_lose_nothing .plain (fun _ => 7) _ _ _ _ pool hrun).1
  refine ⟨pool, hrun, hkept.trans ?_⟩
  decide +kernel

end BankingSystem
