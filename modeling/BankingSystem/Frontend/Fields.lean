import BankingSystem.Frontend.Menus
import BankingSystem.Server.Overlong

/-!
# Payloads made of fields

The client writes a payload as fields with blanks between them; the router scans it
field by field.
-/

namespace BankingSystem

open Foundation

variable {M : Type} [Strtod M]

/-! ## Writing and scanning -/

theorem spaced_cons (part : Bytes) (parts : List Bytes) :
    spaced (part :: parts) = part ++ if parts = [] then [] else 32 :: spaced parts := by
  cases parts with
  | nil => simp [spaced]
  | cons next parts =>
      have hblank : str " " = [32] := rfl
      simp [spaced, hblank, List.intercalate_cons_cons]

def HasNoSpace (text : Bytes) : Prop := ∀ b ∈ text, isSpace b = false

instance : DecidablePred HasNoSpace := fun _ => List.decidableBAll _ _

/-- The conversion takes the field for this value, whatever blank follows it. -/
def Foundation.Conv.Reads (conv : Conv) (field : Bytes) (value : Scanned M) : Prop :=
  ∀ rest : Bytes, (∀ b ∈ rest.head?, isSpace b = true) →
    conv.scan (field ++ rest) = some (value, rest)

theorem skipSpace_field {field : Bytes} (hne : field ≠ []) (h : HasNoSpace field)
    (rest : Bytes) : skipSpace (field ++ rest) = field ++ rest := by
  obtain ⟨b, tail, rfl⟩ := List.exists_cons_of_ne_nil hne
  simp [skipSpace, h b (by simp)]

private theorem scan_blank (conv : Conv) (text : Bytes) :
    conv.scan (M := M) (32 :: text) = conv.scan text := by
  cases conv <;> rfl

theorem sscanf_spaced {conv : Conv} {field : Bytes} {value : Scanned M}
    (h : conv.Reads field value) (format : List Conv) (fields : List Bytes) :
    sscanf (conv :: format) (spaced (field :: fields)) =
      value :: sscanf format (spaced fields) := by
  have hblank : isSpace 32 = true := rfl
  cases fields with
  | nil =>
      rw [spaced_cons, if_pos rfl, sscanf, h [] (by simp)]
      rfl
  | cons next fields =>
      rw [spaced_cons, if_neg (by simp), sscanf, h _ (by simp [hblank])]
      cases format with
      | nil => rfl
      | cons conv format => simp only [sscanf, scan_blank]

theorem span_field (p : UInt8 → Bool) {field rest : Bytes} (hfield : ∀ b ∈ field, p b = true)
    (hrest : ∀ b ∈ rest.head?, p b = false) :
    (field ++ rest).takeWhile p = field ∧ (field ++ rest).dropWhile p = rest := by
  rw [List.takeWhile_append_of_pos hfield, List.dropWhile_append_of_pos hfield]
  cases rest with
  | nil => simp
  | cons b rest => simp [hrest b rfl]

theorem reads_word {field : Bytes} (hne : field ≠ []) (h : HasNoSpace field) :
    Conv.s.Reads (M := M) field (.text field) := by
  intro rest hrest
  have hfield : ∀ b ∈ field, decide (¬ isSpace b = true) = true := fun b hb => by simp [h b hb]
  have hstop : ∀ b ∈ rest.head?, decide (¬ isSpace b = true) = false :=
    fun b hb => by simp [hrest b hb]
  obtain ⟨htake, hdrop⟩ := span_field (fun b => decide (¬ isSpace b = true)) hfield hstop
  simp only [Conv.scan, skipSpace_field hne h, htake, hdrop, if_neg hne]

theorem scanInteger_decInt (n : Int) {rest : Bytes} (hrest : ∀ b ∈ rest.head?, isSpace b = true) :
    scanInteger (decInt n ++ rest) = some (decide (n < 0), n.natAbs, rest) := by
  have hdigit : ∀ b ∈ rest.head?, isDigit b = false :=
    fun b hb => not_isDigit_of_isSpace (hrest b hb)
  cases n with
  | ofNat n =>
      simp only [decInt, scanInteger_dec n hdigit]
      simp
  | negSucc n =>
      have hminus : decInt (.negSucc n) ++ rest = 45 :: (dec (n + 1) ++ rest) := rfl
      have hscan : scanInteger (45 :: (dec (n + 1) ++ rest)) =
          (scanInteger (dec (n + 1) ++ rest)).map fun found => (true, found.2) := by
        obtain ⟨b, digits, hdec⟩ := List.exists_cons_of_ne_nil (dec_ne_nil (n + 1))
        have hb : isDigit b = true := isDigit_of_mem_dec (n := n + 1) (by simp [hdec])
        have hskip := skipSpace_of_isDigit hb (digits ++ rest)
        have hsign := scanSign_of_isDigit hb (digits ++ rest)
        rw [hdec, List.cons_append, scanInteger, scanInteger, hskip, hsign]
        have hminus : isSpace 45 = false := rfl
        simp [skipSpace, scanSign, hminus, hb]
      rw [hminus, hscan, scanInteger_dec (n + 1) hdigit]
      simp

def scannedInt (n : Int) : Int := (signedLong (decide (n < 0)) n.natAbs).bmod (2 ^ 32)

theorem scannedInt_eq {n : Int} (hlow : -2 ^ 31 ≤ n) (hhigh : n < 2 ^ 31) : scannedInt n = n := by
  have hlong : signedLong (decide (n < 0)) n.natAbs = n := by
    by_cases hneg : n < 0
    · simp only [signedLong, hneg, decide_true, if_true]
      omega
    · simp only [signedLong, hneg, decide_false, Bool.false_eq_true, if_false]
      omega
  rw [scannedInt, hlong, Int.bmod_def]
  omega

theorem reads_decInt (n : Int) : Conv.d.Reads (M := M) (decInt n) (.signed (scannedInt n)) := by
  intro rest hrest
  simp [Conv.scan, scanInteger_decInt n hrest, scannedInt]

theorem reads_dec {n : Nat} (h : n < 2 ^ 32) : Conv.u.Reads (M := M) (dec n) (.unsigned n) := by
  intro rest hrest
  have hdigit : ∀ b ∈ rest.head?, isDigit b = false :=
    fun b hb => not_isDigit_of_isSpace (hrest b hb)
  have hlong : unsignedLong false n % 2 ^ 32 = n := by
    have hsmall : ¬ 2 ^ 64 ≤ n := by omega
    simp only [unsignedLong, hsmall, Bool.false_eq_true, if_false]
    omega
  simp only [Conv.scan, scanInteger_dec n hdigit, Option.map_some, hlong]

theorem length_decInt_le {n : Int} (hlow : -2 ^ 31 ≤ n) (hhigh : n < 2 ^ 31) :
    (decInt n).length ≤ 11 := by
  cases n with
  | ofNat n =>
      have hlength := length_dec_le (n := n) (by simp at hhigh; omega)
      simp only [decInt]
      omega
  | negSucc n =>
      have hlength := length_dec_le (n := n + 1) (by omega)
      have hminus : decInt (.negSucc n) = 45 :: dec (n + 1) := rfl
      rw [hminus, List.length_cons]
      omega

/-! ## What a scan takes out of a payload -/

theorem hasNoSpace_textAt (format : List Conv) (payload : Bytes) (i : Nat) :
    HasNoSpace (Scanned.textAt (sscanf (M := M) format payload) i []) := by
  have hnone : HasNoSpace [] := by simp [HasNoSpace]
  induction format generalizing payload i with
  | nil => exact hnone
  | cons conv format ih =>
      cases hscan : conv.scan (M := M) payload with
      | none => simpa [sscanf, hscan, Scanned.textAt] using hnone
      | some scanned =>
          obtain ⟨value, rest⟩ := scanned
          rw [sscanf, hscan]
          cases i with
          | succ i => exact ih rest i
          | zero =>
              cases value with
              | unsigned | signed | double => exact hnone
              | text token =>
                  cases conv with
                  | u | d | llu | lf => simp [Conv.scan] at hscan
                  | s =>
                      simp only [Conv.scan] at hscan
                      split at hscan
                      · cases hscan
                      · cases hscan
                        intro b hb
                        simpa using List.mem_takeWhile_imp hb

/-! ## How far a scan comes -/

def placesFilled : List Place → List Bytes → Nat
  | .text _ :: places, _ :: words => placesFilled places words + 1
  | .number :: places, word :: words =>
      match numberEnd word with
      | some left => placesFilled places (if left = [] then words else left :: words) + 1
      | none => 0
  | _, _ => 0

theorem length_sscanf {places : List Place} {format : List Conv}
    (htakes : List.Forall₂ Place.Takes places format) (payload : Bytes) :
    (sscanf (M := M) format payload).length = placesFilled places (words payload) := by
  induction htakes generalizing payload with
  | nil => cases words payload <;> rfl
  | @cons place conv places format htake htakes ih =>
      cases place with
      | number =>
          obtain ⟨hnone, hsome⟩ := scan_number (M := M) htake payload
          rcases scanInteger_words payload with
            ⟨hscan, hfirst⟩ | ⟨word, left, rest, negative, n, others, hwords, hend, hscan, hrest⟩
          · rw [sscanf, hnone hscan]
            cases hwords : words payload with
            | nil => rfl
            | cons word others =>
                rw [hwords] at hfirst
                simp [placesFilled, hfirst word rfl]
          · obtain ⟨value, hvalue⟩ := hsome negative n rest hscan
            rw [sscanf, hvalue, hwords]
            simp [placesFilled, hend, ih rest, hrest]
      | text size =>
          cases conv with
          | u | d | llu | lf => exact htake.elim
          | s =>
              rcases scan_s_words (M := M) payload with
                ⟨hwords, hscan⟩ | ⟨word, rest, hwords, hscan⟩
              · rw [sscanf, hscan, hwords]
                rfl
              · rw [sscanf, hscan, hwords]
                simp [placesFilled, ih rest]

end BankingSystem
