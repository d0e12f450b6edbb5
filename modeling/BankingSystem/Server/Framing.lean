import BankingSystem.Server.SessionTable
import Mathlib.Algebra.Group.Action.Defs
import Mathlib.Algebra.Order.BigOperators.Group.List

/-!
# Requests on a stream

A client writes the bytes of each `request_t` to a stream socket.  The server takes
whatever one `read` returns for a request, in a buffer that it never clears, so the
bytes that a short read does not replace are those of the request before.
-/

namespace BankingSystem

open Foundation

/-! ## Blocks of one size -/

variable {α : Type} {size : Nat} {blocks : List (List α)}

private theorem length_flatten_le (h : ∀ block ∈ blocks, block.length ≤ size) :
    blocks.flatten.length ≤ blocks.length * size := by
  have hlengths : ∀ n ∈ blocks.map List.length, n ≤ size := by
    intro n hn
    obtain ⟨block, hblock, rfl⟩ := List.mem_map.mp hn
    exact h block hblock
  have hsum := List.sum_le_card_nsmul _ size hlengths
  rwa [List.length_map, smul_eq_mul, ← List.length_flatten] at hsum

private theorem length_flatten_of_whole (h : ∀ block ∈ blocks, block.length = size) :
    blocks.flatten.length = blocks.length * size := by
  rw [List.length_flatten, List.map_congr_left h, List.map_const', List.sum_replicate,
    smul_eq_mul]

private theorem whole_of_length_flatten (hbounded : ∀ block ∈ blocks, block.length ≤ size)
    (hlength : blocks.length * size ≤ blocks.flatten.length) :
    ∀ block ∈ blocks, block.length = size := by
  induction blocks with
  | nil => simp
  | cons block blocks ih =>
      obtain ⟨hblock, hblocks⟩ := List.forall_mem_cons.mp hbounded
      have hrest := length_flatten_le hblocks
      rw [List.length_cons, Nat.succ_mul, List.flatten_cons, List.length_append] at hlength
      rw [List.forall_mem_cons]
      exact ⟨by omega, ih hblocks (by omega)⟩

/-! ## Reading a request -/

def requestSize : Nat := 64 + maxMsgLen

def RawRequest.bytes (req : RawRequest) : Bytes := req.op.bytes ++ req.payload.bytes

private theorem RawRequest.length_bytes (req : RawRequest) : req.bytes.length = requestSize := by
  rw [RawRequest.bytes, List.length_append, req.op.size_eq, req.payload.size_eq, requestSize]

/-- `read` replaces as many bytes of `req` as there are in the chunk it returns. -/
def recvRequest (req : RawRequest) (chunk : Bytes) : RawRequest :=
  let bytes := chunk ++ req.bytes.drop chunk.length
  have hlength : requestSize ≤ bytes.length := by
    rw [List.length_append, List.length_drop, req.length_bytes]
    omega
  { op := ⟨bytes.take 64, by
      rw [List.length_take]
      exact Nat.min_eq_left (Nat.le_trans (by decide) hlength)⟩
    payload := ⟨(bytes.drop 64).take maxMsgLen, by
      rw [List.length_take, List.length_drop]
      exact Nat.min_eq_left (Nat.le_sub_of_add_le' hlength)⟩ }

/-- The requests of the loop in `client_thread_main`, until `read` returns nothing. -/
def received (req : RawRequest) : List Bytes → List RawRequest
  | [] => []
  | chunk :: chunks =>
      if chunk.length > 0 then recvRequest req chunk :: received (recvRequest req chunk) chunks
      else []

private theorem recvRequest_whole (before req : RawRequest) :
    recvRequest before req.bytes = req := by
  have hall : req.bytes ++ before.bytes.drop req.bytes.length = req.bytes := by
    rw [req.length_bytes, ← before.length_bytes, List.drop_length, List.append_nil]
  have hop : req.bytes.take 64 = req.op.bytes := List.take_left' req.op.size_eq
  have hpayload : (req.bytes.drop 64).take maxMsgLen = req.payload.bytes := by
    rw [RawRequest.bytes, List.drop_left' req.op.size_eq]
    exact List.take_of_length_le (Nat.le_of_eq req.payload.size_eq)
  simp only [recvRequest, hall, hop, hpayload]

private theorem length_received (req : RawRequest) {chunks : List Bytes}
    (hnonempty : ∀ chunk ∈ chunks, 0 < chunk.length) :
    (received req chunks).length = chunks.length := by
  induction chunks generalizing req with
  | nil => rfl
  | cons chunk chunks ih =>
      obtain ⟨hchunk, hchunks⟩ := List.forall_mem_cons.mp hnonempty
      rw [received, if_pos hchunk, List.length_cons, List.length_cons, ih _ hchunks]

private theorem received_whole (before : RawRequest) (sent : List RawRequest) :
    received before (sent.map RawRequest.bytes) = sent := by
  induction sent generalizing before with
  | nil => rfl
  | cons req sent ih =>
      have hpositive : req.bytes.length > 0 := by
        rw [req.length_bytes]
        decide
      rw [List.map_cons, received, if_pos hpositive, recvRequest_whole, ih]

/-! ## Deliveries -/

/-- What the reads return when the stream carries these requests. -/
structure Delivery (sent : List RawRequest) where
  chunks : List Bytes
  nonempty : ∀ chunk ∈ chunks, 0 < chunk.length
  bounded : ∀ chunk ∈ chunks, chunk.length ≤ requestSize
  flatten_eq : chunks.flatten = (sent.map RawRequest.bytes).flatten

namespace Delivery

variable {sent : List RawRequest}

def Whole (d : Delivery sent) : Prop := ∀ chunk ∈ d.chunks, chunk.length = requestSize

private theorem length_of_mem_sent {block : Bytes} (h : block ∈ sent.map RawRequest.bytes) :
    block.length = requestSize := by
  obtain ⟨req, -, rfl⟩ := List.mem_map.mp h
  exact req.length_bytes

private theorem length_flatten (d : Delivery sent) :
    d.chunks.flatten.length = sent.length * requestSize := by
  rw [d.flatten_eq, length_flatten_of_whole fun _ => length_of_mem_sent, List.length_map]

private theorem whole_of_length_eq (d : Delivery sent) (h : d.chunks.length = sent.length) :
    d.Whole := by
  refine whole_of_length_flatten d.bounded ?_
  rw [d.length_flatten, h]

private theorem Whole.chunks_eq {d : Delivery sent} (h : d.Whole) :
    d.chunks = sent.map RawRequest.bytes := by
  have hcount : d.chunks.length = sent.length := by
    have hlength := d.length_flatten
    rw [length_flatten_of_whole h] at hlength
    exact Nat.eq_of_mul_eq_mul_right (by decide) hlength
  refine List.eq_iff_flatten_eq.mpr ⟨d.flatten_eq, ?_⟩
  rw [List.map_congr_left h, List.map_congr_left fun block => length_of_mem_sent,
    List.map_const', List.map_const', List.length_map, hcount]

private theorem map_received_iff {β : Type} (part : RawRequest → β) (d : Delivery sent)
    (before : RawRequest) :
    (received before d.chunks).map part = sent.map part ↔ d.Whole := by
  constructor
  · intro h
    have hlength := congrArg List.length h
    rw [List.length_map, List.length_map, length_received before d.nonempty] at hlength
    exact d.whole_of_length_eq hlength
  · intro h
    rw [h.chunks_eq, received_whole]

end Delivery

/-- The server handles the requests that were sent exactly when no read is short. -/
theorem received_eq_sent_iff {sent : List RawRequest} (d : Delivery sent)
    (before : RawRequest) : received before d.chunks = sent ↔ d.Whole := by
  have h := d.map_received_iff id before
  rwa [List.map_id, List.map_id] at h

/-! ### One short read -/

def depositsSent : List RawRequest :=
  [.ofText (str "DEPOSIT") (str "1001 500"), .ofText (str "DEPOSIT") (str "1002 7")]

/-- The second read returns no more than the operation. -/
def splitDelivery : Delivery depositsSent where
  chunks :=
    let first : RawRequest := .ofText (str "DEPOSIT") (str "1001 500")
    let second : RawRequest := .ofText (str "DEPOSIT") (str "1002 7")
    [first.bytes, second.op.bytes, second.payload.bytes]
  nonempty := by decide +kernel
  bounded := by decide +kernel
  flatten_eq := by decide +kernel

/-- The first deposit is made a second time, and the second one never. -/
theorem short_read_repeats_deposit :
    received (.ofText [] []) splitDelivery.chunks ≠ depositsSent ∧
    (received (.ofText [] []) splitDelivery.chunks).map
      (fun req => (req.op.text, req.payload.text)) =
      [(str "DEPOSIT", str "1001 500"), (str "DEPOSIT", str "1001 500"), (str "1002 7", [])] := by
  decide +kernel

/-! ## The loop on the server -/

section Serve

variable {κ M : Type} [DecidableEq κ] [Amount M] [Strtod M] {env : Env} {c : κ}
  {s : ServerState κ M}

/-- The loop of `client_thread_main`; each turn has its own uninitialised variables. -/
def serve (env : Env) (c : κ) (s : ServerState κ M) (req : RawRequest) :
    List (Locals M × Bytes) → List Response × ServerState κ M
  | [] => ([], s)
  | (locals, chunk) :: reads =>
      if chunk.length > 0 then
        let req := recvRequest req chunk
        let (response, s) := handleRequest env locals c req s
        let (responses, s) := serve env c s req reads
        (response :: responses, s)
      else ([], s)

private theorem SessionMove.stays_open {event : Event κ M} {table : List Nat}
    {current : κ → Option Nat}
    (h : SessionMove env s event table current) (hopen : s.currentUserId c ≠ none)
    (hevent : event ≠ .disconnect c) : current c ≠ none := by
  have hupdate (c' : κ) (userId : Nat) :
      Function.update s.currentUserId c' (some userId) c ≠ none := by
    by_cases hc : c = c'
    · rw [hc, Function.update_self]
      nofun
    · rwa [Function.update_of_ne hc]
  cases h with
  | stay event => exact hopen
  | connect c' hclosed => exact hupdate c' 0
  | enter c' locals raw login table hlogin hnew hfree => exact hupdate c' login.userId
  | logout c' locals raw userId hop hcurrent => exact hupdate c' 0
  | disconnect c' userId hcurrent =>
      have hc : c ≠ c' := fun hc => hevent (hc ▸ rfl)
      rwa [Function.update_of_ne hc]

private theorem serve_eq_run (hopen : s.currentUserId c ≠ none) (before : RawRequest)
    (reads : List (Locals M × Bytes)) :
    (serve env c s before reads).2 = s.run env (List.zipWith (Event.request c)
      (reads.map Prod.fst) (received before (reads.map Prod.snd))) := by
  induction reads generalizing s before with
  | nil => rfl
  | cons read reads ih =>
      obtain ⟨locals, chunk⟩ := read
      by_cases hchunk : chunk.length > 0
      · let req := recvRequest before chunk
        have hstep : s.step env (.request c locals req) = (handleRequest env locals c req s).2 :=
          step_request hopen locals req
        have hafter := (step_sessions env s (.request c locals req)).stays_open hopen nofun
        rw [hstep] at hafter
        simp only [serve, received, if_pos hchunk, List.map_cons, List.zipWith_cons_cons]
        rw [ih hafter, ← hstep]
        rfl
      · simp only [serve, received, if_neg hchunk, List.map_cons, List.zipWith_nil_right]
        rfl

theorem serve_whole {sent : List RawRequest} {d : Delivery sent} (hwhole : d.Whole)
    (hopen : s.currentUserId c ≠ none) (before : RawRequest) (reads : List (Locals M × Bytes))
    (hreads : reads.map Prod.snd = d.chunks) :
    (serve env c s before reads).2 =
      s.run env (List.zipWith (Event.request c) (reads.map Prod.fst) sent) := by
  rw [serve_eq_run hopen, hreads, hwhole.chunks_eq, received_whole]

end Serve

end BankingSystem
