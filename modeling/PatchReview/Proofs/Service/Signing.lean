import PatchReview.Proofs.Diff.Paths
import PatchReview.Proofs.Index.Content
import PatchReview.Service.Webhook

/-!
# Signed deliveries

A delivery counts as signed when its header has the keyed digest of its body, with blanks around it or not. A header or
a secret with characters of some kinds is not judged at all: these are a fault of the comparison or of the digest.
-/

namespace PatchReview

open Diff List Text

namespace Text

/-- What is left of a text without the blanks around it. -/
lemma strip_eq_iff {s u : Chars} (hne : u ≠ []) (hu : ∀ c ∈ u, ¬ isBlank c) :
    strip s = u ↔ ∃ a b, (∀ c ∈ a, isBlank c) ∧ (∀ c ∈ b, isBlank c) ∧ s = a ++ u ++ b := by
  constructor
  · rintro rfl
    refine ⟨s.takeWhile isBlank, ((s.dropWhile isBlank).reverse.takeWhile isBlank).reverse, ?_, ?_, ?_⟩
    · exact all_eq_true.1 all_takeWhile
    · exact fun c hc => all_eq_true.1 all_takeWhile c (mem_reverse.1 hc)
    · rw [append_assoc, strip, dropRightWhile, ← reverse_append, takeWhile_append_dropWhile, reverse_reverse,
        takeWhile_append_dropWhile]
  · rintro ⟨a, b, ha, hb, rfl⟩
    have hkeep {u v : Chars} (hne : u ≠ []) (hu : ∀ c ∈ u, ¬ isBlank c) : (u ++ v).dropWhile isBlank = u ++ v := by
      obtain ⟨c, u, rfl⟩ := exists_cons_of_ne_nil hne
      exact dropWhile_cons_of_neg (hu c mem_cons_self)
    have hback := hkeep (v := []) (reverse_ne_nil_iff.2 hne) fun c hc => hu c (mem_reverse.1 hc)
    rw [append_nil] at hback
    rw [strip, dropRightWhile, append_assoc, dropWhile_append_of_pos ha, hkeep hne hu, reverse_append,
      dropWhile_append_of_pos fun c hc => hb c (mem_reverse.1 hc), hback, reverse_reverse]

end Text

namespace Service

variable (secret : String) (body : Bytes) (header : Option String)

/-- A header is `sha256=` and, with blanks around it or not, the keyed digest of the body under a secret. -/
def Signed : Prop :=
  secret ≠ "" ∧ ∃ a b : Chars, (∀ c ∈ a, isBlank c) ∧ (∀ c ∈ b, isBlank c) ∧
    header.map String.toList = some ("sha256=".toList ++ (a ++ (Hmac.hexDigest (utf8 secret) body).toList ++ b))

/-- A header is judged, and as it should be. -/
def Authenticates : Prop := ∃ b, verify secret body header = .ok b ∧ (b = true ↔ Signed secret body header)

lemma strip_eq_hexDigest_iff {given : Chars} {key : Bytes} :
    Hmac.hexDigest key body = strip (String.ofList given) ↔ ∃ a b, (∀ c ∈ a, isBlank c) ∧
      (∀ c ∈ b, isBlank c) ∧ given = a ++ (Hmac.hexDigest key body).toList ++ b := by
  rw [← strip_eq_iff, strip, String.toList_ofList, ← String.toList_inj, String.toList_ofList, eq_comm]
  · simp [Hmac.hexDigest, Digest.hex, Hmac.digest, Sha256.digest, Sha256.Words.bytes, Digest.bigEndian, hexDigits]
  · exact Digest.forall_mem_hex (P := fun c => ¬ isBlank c) (by decide) _

/-- What a header gives for the digest. -/
def given? : Option Chars := header.bind fun h => dropLead? "sha256=".toList h.toList

lemma given?_eq_some_iff {given : Chars} :
    given? header = some given ↔ header.map String.toList = some ("sha256=".toList ++ given) := by
  rw [given?, Option.bind_eq_some_iff, Option.map_eq_some_iff]
  simp only [dropLead?_eq_some_iff]

lemma verify_eq (hsecret : secret ≠ "") : verify secret body header = match given? header, unpairedRun? secret.toList with
    | none, _ => .ok false
    | some _, some (first, last) => .error (Cell.unencodable secret.toList first last)
    | some given, none => sameDigest (Hmac.hexDigest (utf8 secret) body) (strip (String.ofList given)) := by
  cases header with
  | none => rfl
  | some h =>
    rw [verify, if_neg (by simpa using hsecret)]
    rfl

lemma unpairedRun?_eq_none_iff {s : Chars} : unpairedRun? s = none ↔ s.any isUnpaired = false := by
  induction s with
  | nil => simp [unpairedRun?]
  | cons c s ih =>
    cases hc : isUnpaired c with
    | true => simp [unpairedRun?, hc]
    | false => simpa [unpairedRun?, hc] using ih

/-- A header is judged as it should be, unless the secret has no bytes, or the digest that is given is no plain text. -/
theorem authenticates_iff : Authenticates secret body header ↔ ¬ (secret ≠ "" ∧ ∃ given,
    header.map String.toList = some ("sha256=".toList ++ given) ∧
      (secret.toList.any Text.isUnpaired ∨ ¬ (Text.strip given).all (·.toNat < 128))) := by
  rcases Decidable.em (secret = "") with rfl | hsecret
  · have hverify : verify "" body header = .ok false := by cases header <;> rfl
    simp [Authenticates, Signed, hverify]
  unfold Authenticates Signed
  rw [verify_eq _ _ _ hsecret]
  simp only [← given?_eq_some_iff]
  cases given? header with
  | none => simp [hsecret]
  | some given =>
    simp only [ne_eq, hsecret, not_false_eq_true, true_and, Option.some.injEq, exists_eq_left',
      ← strip_eq_hexDigest_iff]
    cases hrun : Text.unpairedRun? secret.toList with
    | some run =>
      have hany : secret.toList.any Text.isUnpaired = true := by
        by_contra h
        rw [unpairedRun?_eq_none_iff.2 (by simpa using h)] at hrun
        cases hrun
      simp [hany]
    | none =>
      rw [unpairedRun?_eq_none_iff] at hrun
      simp only [hrun, sameDigest]
      have hplain : (strip (String.ofList given)).toList = Text.strip given := by simp [strip]
      rw [hplain]
      cases (Text.strip given).all (·.toNat < 128) with
      | true => simp
      | false => simp

/-- A header with an accent is not judged. -/
theorem accent_not_judged : ¬ Authenticates "k" [] (some "sha256=é") := by
  rintro ⟨b, h, -⟩
  have hverify : (verify "k" [] (some "sha256=é")).toBool = false := by with_unfolding_all rfl
  rw [h] at hverify
  cases hverify

end Service

end PatchReview
