import NodeProtocol.Bytes

namespace NodeProtocol.Text

def utf8 (text : String) : Bytes :=
  text.toByteArray.data.toList

def ofUtf8? (bytes : Bytes) : Option String :=
  String.fromUTF8? ⟨bytes.toArray⟩

theorem ofUtf8?_utf8 (text : String) : ofUtf8? (utf8 text) = some text := by
  simp [ofUtf8?, utf8, String.fromUTF8?, text.isValidUTF8, String.fromUTF8]

theorem ofUtf8?_eq_some_iff {bytes : Bytes} {text : String} :
    ofUtf8? bytes = some text ↔ utf8 text = bytes := by
  constructor
  · intro h
    simp only [ofUtf8?, String.fromUTF8?] at h
    split at h
    · cases h
      rfl
    · cases h
  · rintro rfl
    exact ofUtf8?_utf8 text

theorem utf8_inj {text text' : String} : utf8 text = utf8 text' ↔ text = text' := by
  rw [← ofUtf8?_eq_some_iff, ofUtf8?_utf8, Option.some.injEq, eq_comm]

end NodeProtocol.Text
