/-!
# Text as bytes and back

Texts are read byte by byte, so positions count bytes. What is written is ASCII, where each byte is
one character (`utf8_ofAscii`); text from elsewhere comes back through `ofUtf8` (`ofUtf8_utf8`).
-/
namespace Merkle.Text

/-- The UTF-8 bytes of a text. -/
def utf8 (s : String) : List UInt8 := s.toByteArray.data.toList

/-- The text whose characters have the given bytes as code points. -/
def ofAscii (bytes : List UInt8) : String := String.ofList (bytes.map fun b => Char.ofNat b.toNat)

/-- The text with the given UTF-8 bytes; bytes that are no UTF-8 give the empty text. -/
def ofUtf8 (bytes : List UInt8) : String := (String.fromUTF8? bytes.toByteArray).getD ""

theorem utf8_ofList (cs : List Char) :
    utf8 (String.ofList cs) = cs.flatMap String.utf8EncodeChar := by
  simp [utf8, List.utf8Encode]

theorem utf8_inj {s t : String} : utf8 s = utf8 t ↔ s = t := by
  constructor
  · intro h
    apply String.toByteArray_inj.mp
    apply ByteArray.ext
    exact Array.toList_inj.mp h
  · rintro rfl
    rfl

/-- Each byte is a code point. -/
theorem toNat_ofNat_byte (b : UInt8) : (Char.ofNat b.toNat).toNat = b.toNat := by
  have bound := b.toNat_lt
  rw [Char.ofNat, dif_pos (Or.inl (by omega) : b.toNat.isValidChar)]
  rfl

theorem utf8_ofAscii {bytes : List UInt8} (h : ∀ b ∈ bytes, b < 128) :
    utf8 (ofAscii bytes) = bytes := by
  rw [ofAscii, utf8_ofList]
  induction bytes with
  | nil => rfl
  | cons b rest ih =>
    have hb : b.toNat < 128 := UInt8.lt_iff_toNat_lt.mp (h b List.mem_cons_self)
    have code : (Char.ofNat b.toNat).val.toNat = b.toNat := toNat_ofNat_byte b
    have one : String.utf8EncodeChar (Char.ofNat b.toNat) = [b] := by
      simp only [String.utf8EncodeChar, code, show b.toNat ≤ 127 by omega, if_true,
        UInt8.ofNat_toNat]
    simp only [List.map_cons, List.flatMap_cons, one, List.singleton_append]
    rw [ih fun c hc => h c (List.mem_cons_of_mem _ hc)]

theorem ofAscii_utf8 {s : String} (ascii : ∀ b ∈ utf8 s, b < 128) : ofAscii (utf8 s) = s :=
  utf8_inj.mp (utf8_ofAscii ascii)

theorem length_ofAscii (bytes : List UInt8) : (ofAscii bytes).length = bytes.length := by
  rw [ofAscii, String.length_ofList, List.length_map]

theorem ofNat_byte_inj {b c : UInt8} : Char.ofNat b.toNat = Char.ofNat c.toNat ↔ b = c := by
  constructor
  · intro same
    have numbers := congrArg Char.toNat same
    rw [toNat_ofNat_byte, toNat_ofNat_byte] at numbers
    exact UInt8.toNat_inj.mp numbers
  · rintro rfl
    rfl

theorem ofUtf8_utf8 (s : String) : ofUtf8 (utf8 s) = s := by
  have h : (utf8 s).toByteArray = s.toByteArray := by
    apply ByteArray.ext
    simp [utf8]
  simp only [ofUtf8, h, String.fromUTF8?]
  rw [dif_pos s.isValidUTF8]
  rfl

end Merkle.Text
