import CompressorBench.Base64
import CompressorBench.Text.Blank
import CompressorBench.Verdict

/-!
# Test cases

A case file holds a label and a payload, the first two words of its text. The payload is a base64
text of bounded size. A case whose payload is not one is rejected, and keeps the reason in place of
the payload.
-/

namespace CompressorBench

/-! ## Payloads -/

/-- The largest number of bytes that a payload may stand for. -/
def maxPayloadSize : Nat := 2 * 1024 * 1024

/-- Whether a payload of a size is accepted. -/
def withinLimit (size : Nat) : Bool := decide (size ≤ maxPayloadSize)

theorem withinLimit_iff {size : Nat} : withinLimit size = true ↔ size ≤ maxPayloadSize := by
  simp [withinLimit]

/-- A base64 text together with the number of bytes it stands for, which is within the limit. -/
structure Payload where
  token : String
  size : Nat
  decodedSize_token : Base64.decodedSize token = .ok size
  withinLimit_size : withinLimit size = true

/-- Accepts a text as a payload, or says what is wrong with it. -/
def Payload.ofToken (token : String) : Except Defect Payload :=
  match h : Base64.decodedSize token with
  | .error _ => .error .invalidBase64
  | .ok size =>
    if hsize : withinLimit size = true then .ok ⟨token, size, h, hsize⟩
    else .error (.tooLarge size)

/-- An accepted payload has the text it was made from. -/
theorem Payload.token_of_ofToken {token : String} {payload : Payload}
    (h : Payload.ofToken token = .ok payload) : payload.token = token := by
  unfold Payload.ofToken at h
  split at h
  · cases h
  · split at h
    · cases h; rfl
    · cases h

/-- A payload is what its own text is accepted as. -/
theorem Payload.ofToken_token (payload : Payload) :
    Payload.ofToken payload.token = .ok payload := by
  unfold Payload.ofToken
  split
  · next hsize => rw [payload.decodedSize_token] at hsize; cases hsize
  · next hsize =>
    rw [payload.decodedSize_token] at hsize
    cases hsize
    rw [dif_pos payload.withinLimit_size]

theorem Payload.size_le (payload : Payload) : payload.size ≤ maxPayloadSize :=
  withinLimit_iff.mp payload.withinLimit_size

/-- A text of bounded size is a payload. -/
theorem Payload.exists_of_decodedSize {token : String} {size : Nat}
    (h : Base64.decodedSize token = .ok size) (hsize : size ≤ maxPayloadSize) :
    ∃ payload : Payload, payload.token = token ∧ payload.size = size :=
  ⟨⟨token, size, h, withinLimit_iff.mpr hsize⟩, rfl, rfl⟩

theorem Payload.ofToken_of_error {token : String} {error : Base64.Error}
    (h : Base64.decodedSize token = .error error) :
    Payload.ofToken token = .error .invalidBase64 := by
  unfold Payload.ofToken
  split
  · rfl
  · next hsize => rw [h] at hsize; cases hsize

theorem Payload.ofToken_of_lt {token : String} {size : Nat}
    (h : Base64.decodedSize token = .ok size) (hsize : maxPayloadSize < size) :
    Payload.ofToken token = .error (.tooLarge size) := by
  unfold Payload.ofToken
  split
  · next he => rw [h] at he; cases he
  · next hok =>
    rw [h] at hok
    cases hok
    exact dif_neg fun hw => Nat.not_lt.mpr (withinLimit_iff.mp hw) hsize

theorem Payload.decodedSize_of_ofToken {token : String} {payload : Payload}
    (h : Payload.ofToken token = .ok payload) :
    Base64.decodedSize token = .ok payload.size := by
  rw [← token_of_ofToken h]
  exact payload.decodedSize_token

/-- A text that is no payload is no base64 or stands for too much. -/
theorem Payload.ofToken_eq_error_iff {token : String} {defect : Defect} :
    Payload.ofToken token = .error defect ↔
      (defect = .invalidBase64 ∧ ∃ error, Base64.decodedSize token = .error error) ∨
        ∃ size, defect = .tooLarge size ∧ Base64.decodedSize token = .ok size ∧
          maxPayloadSize < size := by
  constructor
  · intro h
    unfold Payload.ofToken at h
    split at h
    · next error he => exact .inl ⟨(Except.error.inj h).symm, error, he⟩
    · next size hok =>
      split at h
      · cases h
      · next hlarge =>
        rw [withinLimit_iff] at hlarge
        exact .inr ⟨size, (Except.error.inj h).symm, hok, Nat.not_le.mp hlarge⟩
  · rintro (⟨rfl, error, herror⟩ | ⟨size, rfl, hsize, hlarge⟩)
    · exact ofToken_of_error herror
    · exact ofToken_of_lt hsize hlarge

/-! ## Cases -/

/-- A test case: its name, and its payload or what is wrong with it. -/
structure TestCase where
  name : String
  payload : Except Defect Payload

namespace TestCase

/-- The case of a text. The first word is a label and does not count, nor does anything after the
second word. -/
def ofContents (name contents : String) : TestCase :=
  match Text.wordAt? 1 contents.toList with
  | none => { name, payload := .error .missingPayload }
  | some word => { name, payload := Payload.ofToken (String.ofList word) }

/-- The case of a file that cannot be read. -/
def unreadable (name message : String) : TestCase :=
  { name, payload := .error (.unreadableFile message) }

/-- The number of bytes that the payload stands for; it is known also for one that is too large. -/
def size? (case : TestCase) : Option Nat :=
  match case.payload with
  | .ok payload => some payload.size
  | .error defect => defect.size?

@[simp] theorem name_ofContents (name contents : String) :
    (ofContents name contents).name = name := by
  unfold ofContents
  split <;> rfl

end TestCase

end CompressorBench
