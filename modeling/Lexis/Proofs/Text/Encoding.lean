import Lexis.Proofs.Text.Lines
import Lexis.Text.Encoding

/-! UTF-8 line by line: a line feed byte encodes a line feed and is part of nothing else, so the
lines of an encoded text are the encodings of its lines. -/

namespace Lexis.Text

/-- The bytes of characters in UTF-8. -/
def encode (cs : List Char) : List UInt8 := cs.flatMap String.utf8EncodeChar

theorem encode_cons (c : Char) (cs : List Char) :
    encode (c :: cs) = String.utf8EncodeChar c ++ encode cs := List.flatMap_cons

theorem toByteArray_toList (text : String) :
    text.toByteArray.data.toList = encode text.toList := by
  rw [← String.utf8Encode_toList, List.utf8Encode, List.data_toByteArray]
  rfl

theorem decode?_encode (cs : List Char) : decode? (encode cs) = some (String.ofList cs) := by
  have same : (⟨(encode cs).toArray⟩ : ByteArray) = (String.ofList cs).toByteArray := by
    apply ByteArray.ext
    rw [String.toByteArray_ofList, List.utf8Encode, List.data_toByteArray]
    rfl
  rw [decode?, same, String.fromUTF8?, dif_pos (String.isValidUTF8 _)]
  rfl

theorem eq_encode_of_decode? {bytes : List UInt8} {text : String} (h : decode? bytes = some text) :
    bytes = encode text.toList := by
  rw [decode?, String.fromUTF8?] at h
  split at h
  next hvalid =>
    cases h
    rw [← toByteArray_toList, String.fromUTF8]
  next => cases h

theorem length_le_encode (cs : List Char) : cs.length ≤ (encode cs).length := by
  induction cs with
  | nil => exact Nat.le_refl 0
  | cons c cs ih =>
      have some := List.length_pos_iff.mpr (String.utf8EncodeChar_ne_nil (c := c))
      rw [encode_cons, List.length_append, List.length_cons]
      omega

theorem encode_newline : String.utf8EncodeChar '\n' = [0x0a] := by decide

theorem ofNat_ne_lineFeed {n : Nat} (h : n % 256 ≠ 10) : (0x0a : UInt8) ≠ UInt8.ofNat n := by
  intro same
  have values := congrArg UInt8.toNat same
  rw [UInt8.toNat_ofNat'] at values
  exact h values.symm

theorem ofNat_high_ne_lineFeed (n : Nat) {m k : Nat} (hm : 0 < m) (low : 128 ≤ k)
    (high : k + m ≤ 256) : (0x0a : UInt8) ≠ UInt8.ofNat (n % m + k) := by
  apply ofNat_ne_lineFeed
  have := Nat.mod_lt n hm
  omega

/-- Every other character is encoded without the byte of the line feed: the bytes of a longer
encoding all have their highest bit set. -/
theorem lineFeed_notMem_encode {c : Char} (h : c ≠ '\n') : 0x0a ∉ String.utf8EncodeChar c := by
  have hval : c.val.toNat ≠ 10 := by
    intro same
    exact h (Char.ext (UInt32.toNat_inj.mp same))
  have tail (n : Nat) : (0x0a : UInt8) ≠ UInt8.ofNat (n % 64 + 128) :=
    ofNat_high_ne_lineFeed n (by decide) (by decide) (by decide)
  fun_cases String.utf8EncodeChar c with
  | case1 v hv =>
      simp only [List.mem_singleton]
      exact ofNat_ne_lineFeed (by omega)
  | case2 v hv =>
      simp only [List.mem_cons, List.not_mem_nil, or_false, not_or]
      have lead := ofNat_high_ne_lineFeed (v / 64) (m := 32) (k := 192)
      exact ⟨lead (by decide) (by decide) (by decide), tail _⟩
  | case3 v hv =>
      simp only [List.mem_cons, List.not_mem_nil, or_false, not_or]
      have lead := ofNat_high_ne_lineFeed (v / 4096) (m := 16) (k := 224)
      exact ⟨lead (by decide) (by decide) (by decide), tail _, tail _⟩
  | case4 v hv =>
      simp only [List.mem_cons, List.not_mem_nil, or_false, not_or]
      have lead := ofNat_high_ne_lineFeed (v / 262144) (m := 8) (k := 240)
      exact ⟨lead (by decide) (by decide) (by decide), tail _, tail _, tail _⟩

theorem newline_of_encode {cs : List Char} {c : Char}
    (h : ∀ b ∈ (encode (cs ++ [c])).getLast?, b = 0x0a) : c = '\n' := by
  have bytes : encode (cs ++ [c]) = encode cs ++ String.utf8EncodeChar c := by simp [encode]
  have some : String.utf8EncodeChar c ≠ [] := String.utf8EncodeChar_ne_nil
  rw [bytes, List.getLast?_append, List.getLast?_eq_some_getLast some, Option.some_or] at h
  by_cases newline : c = '\n'
  · exact newline
  · have feed := List.getLast_mem some
    rw [h _ rfl] at feed
    exact absurd feed (lineFeed_notMem_encode newline)

theorem byteLines_encode (cs : List Char) :
    byteLines (encode cs) = (cutAfter (· == '\n') cs).map encode := by
  induction cs with
  | nil => rfl
  | cons c cs ih =>
      rw [encode_cons]
      by_cases h : c = '\n'
      · subst h
        rw [encode_newline, List.singleton_append, byteLines,
          cutAfter_cons_of_ends (by decide), cutAfter_cons_of_ends (by decide)]
        exact congrArg (_ :: ·) ih
      · have head := forall_not_ends.mpr (lineFeed_notMem_encode h)
        rw [byteLines, cutAfter_append_of_none String.utf8EncodeChar_ne_nil head,
          cutAfter_cons_of_not_ends (by simpa using h)]
        change glue _ (byteLines (encode cs)) = _
        rw [ih]
        cases cutAfter (· == '\n') cs with
        | nil => simp [glue, encode]
        | cons line lines => simp [glue, encode]

end Lexis.Text
