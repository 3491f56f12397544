import Mathlib.Data.List.Basic
import Mathlib.Data.List.Induction
import Monkey.Text.Lines

/-! # Text and its bytes

Bytes decode to a text exactly if the characters of the text are encoded as these bytes.
A byte below 128 is a character of its own wherever it stands, so a text ends with such a
character exactly if its bytes end with such a byte.
-/

namespace Monkey.Text

variable {bytes : List UInt8} {s : String} {c d : Char}

/-- The bytes of characters in UTF-8. -/
def encodeUtf8 (cs : List Char) : List UInt8 :=
  cs.flatMap String.utf8EncodeChar

theorem toByteArray_encodeUtf8 (cs : List Char) :
    (⟨(encodeUtf8 cs).toArray⟩ : ByteArray) = cs.utf8Encode := by
  apply ByteArray.ext
  rw [List.utf8Encode, List.data_toByteArray]
  rfl

theorem decodeUtf8?_eq_some_iff : decodeUtf8? bytes = some s ↔ bytes = encodeUtf8 s.toList := by
  have harray : (⟨bytes.toArray⟩ : ByteArray) = s.toByteArray ↔ bytes = encodeUtf8 s.toList := by
    rw [← String.utf8Encode_toList, ← toByteArray_encodeUtf8]
    simp
  rw [← harray, decodeUtf8?, String.fromUTF8?]
  split
  · simp [String.fromUTF8, ← String.toByteArray_inj]
  · next hinvalid =>
    refine iff_of_false nofun fun h => hinvalid ?_
    exact h ▸ s.isValidUTF8

theorem utf8ByteSize_eq (s : String) : s.utf8ByteSize = (encodeUtf8 s.toList).length := by
  rw [← String.size_toByteArray, ← String.utf8Encode_toList, ← toByteArray_encodeUtf8]
  rfl

theorem encodeUtf8_append (cs ds : List Char) :
    encodeUtf8 (cs ++ ds) = encodeUtf8 cs ++ encodeUtf8 ds :=
  List.flatMap_append

theorem encodeUtf8_singleton (c : Char) : encodeUtf8 [c] = String.utf8EncodeChar c :=
  List.flatMap_singleton _ c

theorem length_le_encodeUtf8 (cs : List Char) : cs.length ≤ (encodeUtf8 cs).length := by
  induction cs with
  | nil => exact Nat.zero_le _
  | cons c cs ih =>
    have hc := c.utf8Size_pos
    rw [encodeUtf8, List.flatMap_cons, List.length_append, String.length_utf8EncodeChar,
      ← encodeUtf8, List.length_cons]
    omega

/-- A text has at most as many characters as bytes. -/
theorem length_le_of_decodeUtf8? (h : decodeUtf8? bytes = some s) : s.length ≤ bytes.length := by
  rw [decodeUtf8?_eq_some_iff.1 h, ← String.length_toList]
  exact length_le_encodeUtf8 s.toList

theorem encodeUtf8_concat (cs : List Char) (c : Char) :
    encodeUtf8 (cs ++ [c]) = encodeUtf8 cs ++ String.utf8EncodeChar c := by
  rw [encodeUtf8_append, encodeUtf8_singleton]

theorem utf8EncodeChar_ascii (hc : c.toNat < 0x80) :
    String.utf8EncodeChar c = [UInt8.ofNat c.toNat] :=
  if_pos (Nat.le_of_lt_succ hc)

/-- Whatever a character above 127 is encoded as consists of bytes above 127. -/
theorem le_of_mem_utf8EncodeChar {b : UInt8} (hc : 0x80 ≤ c.toNat)
    (hb : b ∈ String.utf8EncodeChar c) : 0x80 ≤ b.toNat := by
  have hone : ¬c.val.toNat ≤ 0x7f := Nat.not_le.2 hc
  unfold String.utf8EncodeChar at hb
  rw [if_neg hone] at hb
  split at hb
  · simp only [List.mem_cons, List.not_mem_nil, or_false] at hb
    rcases hb with rfl | rfl <;> rw [UInt8.toNat_ofNat'] <;> omega
  split at hb
  · simp only [List.mem_cons, List.not_mem_nil, or_false] at hb
    rcases hb with rfl | rfl | rfl <;> rw [UInt8.toNat_ofNat'] <;> omega
  · simp only [List.mem_cons, List.not_mem_nil, or_false] at hb
    rcases hb with rfl | rfl | rfl | rfl <;> rw [UInt8.toNat_ofNat'] <;> omega

/-- Only a line feed is encoded with the byte that ends a line. -/
theorem lineFeed_mem_encodeUtf8_iff {cs : List Char} : lineFeed ∈ encodeUtf8 cs ↔ '\n' ∈ cs := by
  rw [encodeUtf8, List.mem_flatMap]
  constructor
  · rintro ⟨c, hc, hb⟩
    by_cases hascii : c.toNat < 0x80
    · rw [utf8EncodeChar_ascii hascii, List.mem_singleton] at hb
      have hnat : '\n'.toNat = c.toNat := by
        have hbyte := congrArg UInt8.toNat hb
        rwa [UInt8.toNat_ofNat', Nat.mod_eq_of_lt (by omega)] at hbyte
      exact Char.toNat_inj.1 hnat ▸ hc
    · exact absurd (le_of_mem_utf8EncodeChar (Nat.le_of_not_lt hascii) hb) (by decide)
  · intro hc
    exact ⟨'\n', hc, by decide⟩

/-- The last character of a text is below 128 if its last byte is. -/
theorem encodeUtf8_eq_concat {cs : List Char} (hc : c.toNat < 0x80)
    (h : bytes ++ [UInt8.ofNat c.toNat] = encodeUtf8 cs) :
    ∃ ds, cs = ds ++ [c] ∧ bytes = encodeUtf8 ds := by
  have hbyte : (UInt8.ofNat c.toNat).toNat = c.toNat := by
    rw [UInt8.toNat_ofNat']
    omega
  induction cs using List.reverseRecOn with
  | nil => exact absurd h (by simp [encodeUtf8])
  | append_singleton ds d =>
    rw [encodeUtf8_concat] at h
    by_cases hd : d.toNat < 0x80
    · rw [utf8EncodeChar_ascii hd] at h
      obtain ⟨hbytes, hlast⟩ := List.append_inj' h rfl
      have hdc : c.toNat = d.toNat := by
        have hmod := congrArg UInt8.toNat (List.singleton_inj.1 hlast)
        rw [hbyte, UInt8.toNat_ofNat'] at hmod
        omega
      exact ⟨ds, by rw [Char.toNat_inj.1 hdc], hbytes⟩
    · have hne : String.utf8EncodeChar d ≠ [] := by
        apply List.ne_nil_of_length_pos
        rw [String.length_utf8EncodeChar]
        exact d.utf8Size_pos
      have hlast := congrArg List.getLast? h
      rw [List.getLast?_concat, List.getLast?_append_of_ne_nil _ hne] at hlast
      have hle := le_of_mem_utf8EncodeChar (Nat.le_of_not_lt hd) (List.mem_of_getLast? hlast.symm)
      rw [hbyte] at hle
      exact absurd hc (Nat.not_lt.2 hle)

theorem decodeUtf8?_concat (hc : c.toNat < 0x80) (bytes : List UInt8) :
    decodeUtf8? (bytes ++ [UInt8.ofNat c.toNat]) = (decodeUtf8? bytes).map (·.push c) := by
  refine Option.ext fun s => ?_
  rw [Option.map_eq_some_iff, decodeUtf8?_eq_some_iff]
  constructor
  · intro h
    obtain ⟨ds, hs, hbytes⟩ := encodeUtf8_eq_concat hc h
    refine ⟨String.ofList ds, decodeUtf8?_eq_some_iff.2 (by simpa using hbytes), ?_⟩
    rw [← String.toList_inj, hs]
    simp
  · rintro ⟨t, ht, rfl⟩
    rw [decodeUtf8?_eq_some_iff.1 ht, String.toList_push, encodeUtf8_concat,
      utf8EncodeChar_ascii hc]

end Monkey.Text
