/-!
# Text as bytes

Files, standard input and the callers of the boundary hand over bytes; digests are taken of bytes.
Only UTF-8 in its strict form is text: no surrogates, no overlong forms.

Principal results
* `ofUtf8?_eq_some_iff` — bytes are read as a text exactly when they are its bytes;
* `zero_mem_utf8_iff` — a text has a zero byte exactly when it has a zero character.
-/

namespace PureContracts.Text

/-- The bytes of a text. -/
def utf8 (text : String) : List UInt8 := text.toUTF8.data.toList

/-- The text that some bytes encode, if they are UTF-8. -/
def ofUtf8? (bytes : List UInt8) : Option String := String.fromUTF8? ⟨bytes.toArray⟩

theorem toArray_utf8 (text : String) : (⟨(utf8 text).toArray⟩ : ByteArray) = text.toByteArray := by
  simp [utf8, String.toUTF8]

theorem ofUtf8?_utf8 (text : String) : ofUtf8? (utf8 text) = some text := by
  rw [ofUtf8?, toArray_utf8, String.fromUTF8?, dif_pos text.isValidUTF8]
  rfl

/-- Bytes are read as a text exactly when they are its bytes. -/
theorem ofUtf8?_eq_some_iff {bytes : List UInt8} {text : String} :
    ofUtf8? bytes = some text ↔ bytes = utf8 text := by
  constructor
  · intro h
    unfold ofUtf8? String.fromUTF8? at h
    split at h
    · cases h
      rfl
    · cases h
  · rintro rfl
    exact ofUtf8?_utf8 text

theorem utf8_ofList (chars : List Char) :
    utf8 (String.ofList chars) = chars.flatMap String.utf8EncodeChar := by
  rw [utf8, String.toUTF8, String.toByteArray_ofList, List.utf8Encode]
  simp

/-- A text with a zero character has a zero byte. -/
theorem zero_mem_utf8 {text : String} (h : '\x00' ∈ text.toList) : 0 ∈ utf8 text := by
  have hzero : 0 ∈ String.utf8EncodeChar '\x00' := List.mem_singleton_self 0
  rw [← @String.ofList_toList text, utf8_ofList]
  exact List.mem_flatMap.mpr ⟨_, h, hzero⟩

/-- Only the zero character is written with a zero byte: every other byte is that of a plain
character or has its highest bit set. -/
theorem zero_notMem_utf8EncodeChar {c : Char} (h : c ≠ '\x00') : 0 ∉ String.utf8EncodeChar c := by
  have hcode : c.val.toNat ≠ 0 := fun hzero => h (Char.ext (UInt32.toNat.inj hzero))
  have hbyte (n : Nat) : (0 : UInt8) = UInt8.ofNat n ↔ n % 256 = 0 := by
    rw [← UInt8.toNat_inj, UInt8.toNat_ofNat', eq_comm]
    rfl
  simp only [String.utf8EncodeChar]
  generalize c.val.toNat = code at hcode
  -- One, two, three or four bytes.
  split
  · simp only [List.mem_singleton, hbyte]
    omega
  split
  · simp only [List.mem_cons, List.not_mem_nil, or_false, hbyte]
    omega
  split
  · simp only [List.mem_cons, List.not_mem_nil, or_false, hbyte]
    omega
  · simp only [List.mem_cons, List.not_mem_nil, or_false, hbyte]
    omega

/-- A text has a zero byte exactly when it has a zero character. -/
theorem zero_mem_utf8_iff {text : String} : 0 ∈ utf8 text ↔ '\x00' ∈ text.toList := by
  refine ⟨fun h => ?_, zero_mem_utf8⟩
  rw [← @String.ofList_toList text, utf8_ofList] at h
  obtain ⟨c, hc, hzero⟩ := List.mem_flatMap.mp h
  by_cases hnull : c = '\x00'
  · exact hnull ▸ hc
  · exact absurd hzero (zero_notMem_utf8EncodeChar hnull)

end PureContracts.Text
