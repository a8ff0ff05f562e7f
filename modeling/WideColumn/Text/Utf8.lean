import WideColumn.Bytes.Basic

/-!
# Text as bytes

A text is stored as its UTF-8 bytes.  `encode` writes it, and `decode?` accepts exactly the
well-formed sequences: no overlong form, no surrogate, nothing cut short.
-/

namespace WideColumn.Text.Utf8

/-- The bytes of a text. -/
def encode (s : String) : Bytes := s.toUTF8.data.toList

/-- The text that the bytes spell, if they are well formed. -/
def decode? (bytes : Bytes) : Option String := String.fromUTF8? ⟨bytes.toArray⟩

/-- A text decodes from its own bytes and from no others. -/
theorem decode?_eq_some_iff {bytes : Bytes} {s : String} :
    decode? bytes = some s ↔ bytes = encode s := by
  unfold decode? String.fromUTF8?
  constructor
  · intro h
    split at h
    · cases h
      show bytes = (ByteArray.mk bytes.toArray).data.toList
      simp
    · cases h
  · rintro rfl
    have h : (ByteArray.mk (encode s).toArray) = s.toUTF8 := by simp [encode]
    have valid : (ByteArray.mk (encode s).toArray).IsValidUTF8 := h ▸ s.isValidUTF8
    rw [dif_pos valid]
    congr 1

end WideColumn.Text.Utf8
