import BankingSystem.Server.Router

/-!
# The buffers of the router

The `%s` conversions of `client_thread_main` have no width, and `sscanf` stops only at
a NUL.  What they store fits where the payload has a NUL and short words.
-/

namespace BankingSystem

open Foundation

/-- A variable that is scanned: a number, or an array of `size` characters. -/
inductive Place where
  | number
  | text (size : Nat)

def Place.Takes : Place → Conv → Prop
  | .number, .u | .number, .d | .number, .llu | .text _, .s => True
  | _, _ => False

def Op.places : Op → List Place
  | .login => [.text maxUsernameLen, .text maxPasswordLen]
  | .changePassword => [.number, .text maxPasswordLen]
  | .addCustomer =>
      [.text maxFnameLen, .text maxLnameLen, .number, .text maxAddrLen, .text maxEmailLen,
        .text maxPhoneLen, .text maxUsernameLen, .text maxPasswordLen]
  | .modifyCustomer | .modifyUser =>
      [.number, .number, .text maxFnameLen, .text maxLnameLen, .text maxAddrLen,
        .text maxEmailLen, .text maxPhoneLen]
  | .approveRejectLoan => [.number, .text 32, .number]
  | .addEmployee =>
      [.text maxFnameLen, .text maxLnameLen, .number, .text maxAddrLen, .text maxRoleStr,
        .text maxEmailLen, .text maxPhoneLen, .text maxUsernameLen, .text maxPasswordLen]
  | .changeRole => [.number, .text 32]
  | .logout | .viewBalance | .deposit | .withdraw | .transfer | .applyLoan | .viewLoan
  | .addFeedback | .viewFeedback | .viewTransactions | .viewDetails | .processLoans
  | .viewAssignedLoans | .viewCustTransactions | .setAccountStatus | .viewNonAssignedLoans
  | .assignLoan | .reviewFeedback | .listUsers => []

theorem places_take (o : Op) :
    List.Forall₂ Place.Takes o.places o.format ∨ o.places = [] ∧ .s ∉ o.format := by
  cases o <;> first | exact .inr ⟨rfl, by decide⟩ | exact .inl (by repeat constructor)

/-! ## What is stored -/

/-- The string that starts at the payload; `beyond` is the memory behind it. -/
def RawRequest.scanned (raw : RawRequest) (beyond : Bytes) : Bytes :=
  cstr (raw.payload.bytes ++ beyond)

section Contained

variable (M : Type) [Strtod M]

/-- Each `%s` that is converted stores a token that its array has room for. -/
def StoresFit (format : List Conv) (places : List Place) (inside : Prop) (text : Bytes) : Prop :=
  ∀ i size, places[i]? = some (.text size) → i ≤ (sscanf (M := M) format text).length →
    inside ∧ (Scanned.textAt (sscanf (M := M) format text) i []).length ≤ size - 1

def RawRequest.Contained (raw : RawRequest) (beyond : Bytes) : Prop :=
  ∀ o : Op, o.name = raw.op.text →
    StoresFit M o.format o.places ((raw.scanned beyond).length < maxMsgLen) (raw.scanned beyond)

end Contained

/-- The words that come to stand at the places for text are short enough. -/
def WordsFit (inside : Prop) : List Place → List Bytes → Prop
  | .text size :: places, word :: words =>
      inside ∧ word.length ≤ size - 1 ∧ WordsFit inside places words
  | .text _ :: _, [] => inside
  | .number :: places, word :: words =>
      ∀ left ∈ numberEnd word,
        WordsFit inside places (if left = [] then words else left :: words)
  | .number :: _, [] | [], _ => True

def RawRequest.Fits (raw : RawRequest) (beyond : Bytes) : Prop :=
  ∀ o : Op, o.name = raw.op.text →
    WordsFit (0 ∈ raw.payload.bytes) o.places (words (raw.scanned beyond))

variable {M : Type} [Strtod M] {format : List Conv} {places : List Place} {inside : Prop}

private theorem storesFit_of_scan {conv : Conv} {place : Place} {text rest : Bytes}
    {value : Scanned M} (h : conv.scan text = some (value, rest)) :
    StoresFit M (conv :: format) (place :: places) inside text ↔
      (∀ size, place = .text size →
        inside ∧ (Scanned.textAt [value] 0 []).length ≤ size - 1) ∧
      StoresFit M format places inside rest := by
  have hvalues : sscanf (M := M) (conv :: format) text = value :: sscanf format rest := by
    rw [sscanf, h]
  rw [StoresFit, hvalues]
  constructor
  · intro hfit
    refine ⟨fun size hplace => hfit 0 size (congrArg some hplace) (Nat.zero_le _), ?_⟩
    intro i size hplace hi
    exact hfit (i + 1) size hplace (Nat.succ_le_succ hi)
  · rintro ⟨hfirst, hrest⟩ i size hplace hi
    cases i with
    | zero => exact hfirst size (Option.some.inj hplace)
    | succ i => exact hrest i size hplace (Nat.le_of_succ_le_succ hi)

private theorem storesFit_of_none {conv : Conv} {place : Place} {text : Bytes}
    (h : conv.scan (M := M) text = none) :
    StoresFit M (conv :: format) (place :: places) inside text ↔
      ∀ size, place = .text size → inside := by
  have hvalues : sscanf (M := M) (conv :: format) text = [] := by rw [sscanf, h]
  rw [StoresFit, hvalues]
  constructor
  · exact fun hfit size hplace => (hfit 0 size (congrArg some hplace) (Nat.le_refl 0)).1
  · intro hinside i size hplace hi
    obtain rfl := Nat.le_zero.mp hi
    exact ⟨hinside size (Option.some.inj hplace), Nat.zero_le _⟩

theorem scan_number {conv : Conv} (h : Place.number.Takes conv) (text : Bytes) :
    (scanInteger text = none → conv.scan (M := M) text = none) ∧
      ∀ negative n rest, scanInteger text = some (negative, n, rest) →
        ∃ value : Scanned M, conv.scan text = some (value, rest) := by
  cases conv with
  | u | d | llu =>
      refine ⟨fun hnone => by simp [Conv.scan, hnone], fun negative n rest hsome => ?_⟩
      simp [Conv.scan, hsome]
  | s | lf => exact h.elim

theorem storesFit_iff (htakes : List.Forall₂ Place.Takes places format) (text : Bytes) :
    StoresFit M format places inside text ↔ WordsFit inside places (words text) := by
  induction htakes generalizing text with
  | nil => exact iff_of_true nofun trivial
  | @cons place conv places format htake htakes ih =>
      cases place with
      | number =>
          obtain ⟨hnone, hsome⟩ := scan_number (M := M) htake text
          rcases scanInteger_words text with
            ⟨hscan, hfirst⟩ | ⟨word, left, rest, negative, n, others, hwords, hend, hscan, hrest⟩
          · rw [storesFit_of_none (hnone hscan)]
            refine iff_of_true nofun ?_
            cases hwords : words text with
            | nil => trivial
            | cons word others =>
                intro left hleft
                rw [hwords] at hfirst
                rw [hfirst word rfl] at hleft
                cases hleft
          · obtain ⟨value, hvalue⟩ := hsome negative n rest hscan
            rw [storesFit_of_scan hvalue, ih rest, hwords, hrest]
            simp [WordsFit, hend]
      | text size =>
          cases conv with
          | s =>
              rcases scan_s_words (M := M) text with
                ⟨hwords, hscan⟩ | ⟨word, rest, hwords, hscan⟩
              · rw [storesFit_of_none hscan, hwords]
                simp [WordsFit]
              · rw [storesFit_of_scan hscan, ih rest, hwords]
                simp [WordsFit, Scanned.textAt, and_assoc]
          | u | d | llu | lf => exact htake.elim

private theorem length_scanned_lt_iff (raw : RawRequest) (beyond : Bytes) :
    (raw.scanned beyond).length < maxMsgLen ↔ 0 ∈ raw.payload.bytes := by
  have hsize := raw.payload.size_eq
  rw [RawRequest.scanned, cstr, List.takeWhile_append]
  constructor
  · intro hlt
    by_contra hzero
    have hall : raw.payload.bytes.takeWhile (· ≠ 0) = raw.payload.bytes :=
      List.takeWhile_eq_self_iff.mpr fun b hb => by
        simpa using fun h : b = 0 => hzero (h ▸ hb)
    rw [hall, if_pos rfl, List.length_append] at hlt
    omega
  · intro hzero
    have hshort : (raw.payload.bytes.takeWhile (· ≠ 0)).length < raw.payload.bytes.length := by
      have hle := (List.takeWhile_prefix (l := raw.payload.bytes) fun b => decide (b ≠ 0)).length_le
      refine Nat.lt_of_le_of_ne hle fun heq => ?_
      have hall := (List.takeWhile_prefix _).eq_of_length heq
      simpa using List.takeWhile_eq_self_iff.mp hall 0 hzero
    rw [if_neg hshort.ne]
    omega

theorem overlong_contained_iff (raw : RawRequest) (beyond : Bytes) :
    raw.Contained M beyond ↔ raw.Fits beyond := by
  refine forall_congr' fun o => imp_congr_right fun _ => ?_
  rw [length_scanned_lt_iff]
  rcases places_take o with htakes | ⟨hplaces, -⟩
  · exact storesFit_iff htakes _
  · rw [hplaces]
    exact iff_of_true nofun trivial

/-- A user name of 64 bytes, one more than its array has room for. -/
def longLogin : RawRequest := .ofText (str "LOGIN") (List.replicate 64 65 ++ str " pw")

theorem long_login_overflows : ¬ longLogin.Contained ℚ [] := by
  intro hfit
  have hlength := (hfit .login (by decide +kernel) 0 64 rfl (Nat.zero_le _)).2
  exact absurd hlength (by decide +kernel)

end BankingSystem
