import ClassReference.Document
import Mathlib.Data.Char

/-!
# Proofs: text in UTF-8

The bytes of a character are decoded to that character, one case for each number of bytes. So a text
that is written is read again, with its line ends unified (`Content.text?_text`).
-/

namespace ClassReference

namespace Encoding

variable {i : Nat} {o : Option Owed} {done : List Char} {b : UInt8} {bs : List UInt8}

theorem decodeFrom_of_char {c : Char} (h : step utf8 o b.toNat = .char c) :
    decodeFrom utf8 i o done (b :: bs) = decodeFrom utf8 (i + 1) none (c :: done) bs := by
  rw [decodeFrom, h]

theorem decodeFrom_of_owed {rest : Owed} (h : step utf8 o b.toNat = .owed rest) :
    decodeFrom utf8 i o done (b :: bs) = decodeFrom utf8 (i + 1) (some rest) done bs := by
  rw [decodeFrom, h]

/-- The byte that completes a character. -/
theorem step_last {low high bits n v : Nat} (hlow : low ≤ n) (hhigh : n ≤ high)
    (hn : n < UInt8.size) (hv : bits * 64 + (n - 0x80) = v) (hvalid : isSurrogate v = false) :
    step utf8 (some ⟨1, low, high, bits⟩) (UInt8.ofNat n).toNat = .char (Char.ofNat v) := by
  rw [UInt8.toNat_ofNat_of_lt' hn, step, utf8Next, if_pos ⟨hlow, hhigh⟩]
  simp only [hv, hvalid, lt_irrefl, if_false, Bool.false_eq_true]

/-- A byte between the first and the last of a character. -/
theorem step_middle {count low high bits n v : Nat} (hlow : low ≤ n) (hhigh : n ≤ high)
    (hn : n < UInt8.size) (hv : bits * 64 + (n - 0x80) = v) :
    step utf8 (some ⟨count + 2, low, high, bits⟩) (UInt8.ofNat n).toNat =
      .owed ⟨count + 1, 0x80, 0xBF, v⟩ := by
  rw [UInt8.toNat_ofNat_of_lt' hn, step, utf8Next, if_pos ⟨hlow, hhigh⟩]
  simp only [hv]
  rw [if_pos (by omega)]
  rfl

/-- The first byte of a character of three bytes. What it says about the second byte keeps out
longer forms of shorter characters. -/
theorem step_first_of_three {v : Nat} (h : 0x7FF < v) (h' : v ≤ 0xFFFF) :
    ∃ low high,
      step utf8 none (UInt8.ofNat (v / 4096 % 16 + 224)).toNat = .owed ⟨2, low, high, v / 4096⟩ ∧
      low ≤ v / 64 % 64 + 128 ∧ v / 64 % 64 + 128 ≤ high := by
  rw [UInt8.toNat_ofNat_of_lt' (by change _ < 256; omega), step, utf8First, if_neg (by omega),
    if_neg (by omega)]
  by_cases hE0 : v / 4096 % 16 + 224 = 0xE0
  · rw [if_pos hE0]
    refine ⟨0xA0, 0xBF, ?_, by omega, by omega⟩
    rw [show v / 4096 = 0 by omega]
  · rw [if_neg hE0, if_pos (by omega)]
    refine ⟨0x80, 0xBF, ?_, by omega, by omega⟩
    rw [show v / 4096 % 16 + 224 - 0xE0 = v / 4096 by omega]

/-- The first byte of a character of four bytes. What it says about the second byte keeps out longer
forms of shorter characters, and what lies behind the last code point. -/
theorem step_first_of_four {v : Nat} (h : 0xFFFF < v) (h' : v < 0x110000) :
    ∃ low high, step utf8 none (UInt8.ofNat (v / 262144 % 8 + 240)).toNat =
      .owed ⟨3, low, high, v / 262144⟩ ∧
      low ≤ v / 4096 % 64 + 128 ∧ v / 4096 % 64 + 128 ≤ high := by
  rw [UInt8.toNat_ofNat_of_lt' (by change _ < 256; omega), step, utf8First, if_neg (by omega),
    if_neg (by omega), if_neg (by omega), if_neg (by omega)]
  by_cases hF0 : v / 262144 % 8 + 240 = 0xF0
  · rw [if_pos hF0]
    refine ⟨0x90, 0xBF, ?_, by omega, by omega⟩
    rw [show v / 262144 = 0 by omega]
  rw [if_neg hF0]
  by_cases hF4 : v / 262144 % 8 + 240 = 0xF4
  · rw [if_neg (by omega), if_pos hF4]
    refine ⟨0x80, 0x8F, ?_, by omega, by omega⟩
    rw [show v / 262144 = 4 by omega]
  · rw [if_pos (by omega)]
    refine ⟨0x80, 0xBF, ?_, by omega, by omega⟩
    rw [show v / 262144 % 8 + 240 - 0xF0 = v / 262144 by omega]

theorem isSurrogate_eq_false {v : Nat} (h : v < 0xD800 ∨ 0xDFFF < v) : isSurrogate v = false := by
  rw [isSurrogate, Bool.and_eq_false_iff, decide_eq_false_iff_not, decide_eq_false_iff_not]
  omega

/-- The bytes of a character are decoded to it. -/
theorem decodeFrom_char (c : Char) (i : Nat) (done : List Char) (bs : List UInt8) :
    decodeFrom utf8 i none done (String.utf8EncodeChar c ++ bs) =
      decodeFrom utf8 (i + (String.utf8EncodeChar c).length) none (c :: done) bs := by
  have hchar : Char.ofNat c.val.toNat = c := Char.ofNat_toNat c
  have hvalid : c.val.toNat < 0xD800 ∨ 0xDFFF < c.val.toNat ∧ c.val.toNat < 0x110000 := c.valid
  rw [String.utf8EncodeChar]
  generalize c.val.toNat = v at hchar hvalid
  subst hchar
  have hbyte : ∀ {n : Nat}, n < 256 → n < UInt8.size := id
  have hsurrogate : isSurrogate v = false := isSurrogate_eq_false (by omega)
  -- the byte that completes the character, whatever stands before it
  have hlast : step utf8 (some ⟨1, 0x80, 0xBF, v / 64⟩) (UInt8.ofNat (v % 64 + 128)).toNat =
      .char (Char.ofNat v) :=
    step_last (by omega) (by omega) (hbyte (by omega)) (by omega) hsurrogate
  split_ifs with h1 h2 h3
  · have hstep : step utf8 none (UInt8.ofNat v).toNat = .char (Char.ofNat v) := by
      rw [UInt8.toNat_ofNat_of_lt' (hbyte (by omega)), step, utf8First, if_pos (by omega)]
    exact decodeFrom_of_char hstep
  · have hfirst : step utf8 none (UInt8.ofNat (v / 64 % 32 + 192)).toNat =
        .owed ⟨1, 0x80, 0xBF, v / 64⟩ := by
      rw [UInt8.toNat_ofNat_of_lt' (hbyte (by omega)), step, utf8First, if_neg (by omega),
        if_pos (by omega)]
      rw [show v / 64 % 32 + 192 - 0xC0 = v / 64 by omega]
    exact (decodeFrom_of_owed hfirst).trans (decodeFrom_of_char hlast)
  · obtain ⟨low, high, hfirst, hlow, hhigh⟩ := @step_first_of_three v (by omega) h3
    have hmiddle := @step_middle 0 low high (v / 4096) _ (v / 64) hlow hhigh (hbyte (by omega))
      (by omega)
    exact (decodeFrom_of_owed hfirst).trans
      ((decodeFrom_of_owed hmiddle).trans (decodeFrom_of_char hlast))
  · obtain ⟨low, high, hfirst, hlow, hhigh⟩ := @step_first_of_four v (by omega) (by omega)
    have hsecond := @step_middle 1 low high (v / 262144) _ (v / 4096) hlow hhigh (hbyte (by omega))
      (by omega)
    have hthird := @step_middle 0 0x80 0xBF (v / 4096) (v / 64 % 64 + 128) (v / 64) (by omega)
      (by omega) (hbyte (by omega)) (by omega)
    exact (decodeFrom_of_owed hfirst).trans ((decodeFrom_of_owed hsecond).trans
      ((decodeFrom_of_owed hthird).trans (decodeFrom_of_char hlast)))

theorem decodeFrom_chars (cs : List Char) (i : Nat) (done : List Char) :
    decodeFrom utf8 i none done (cs.flatMap String.utf8EncodeChar) =
      ⟨done.reverse ++ cs, none⟩ := by
  induction cs generalizing i done with
  | nil => simp [decodeFrom]
  | cons c cs ih =>
    rw [List.flatMap_cons, decodeFrom_char, ih, List.reverse_cons, List.append_assoc,
      List.singleton_append]

end Encoding

theorem toList_byteArray (bs : ByteArray) : bs.toList = bs.data.toList := by
  have hloop : ∀ i r, ByteArray.toList.loop bs i r = r.reverse ++ bs.data.toList.drop i := by
    intro i r
    fun_induction ByteArray.toList.loop bs i r with
    | case1 i r hi ih =>
      have hi' : i < bs.data.toList.length := hi
      rw [ih, List.drop_eq_getElem_cons hi', List.reverse_cons, List.append_assoc,
        List.singleton_append]
      simp [ByteArray.get!, getElem!_pos bs.data i hi]
    | case2 i r hi =>
      have hi' : bs.data.toList.length ≤ i := Nat.le_of_not_lt hi
      rw [List.drop_eq_nil_of_le hi', List.append_nil]
  rw [ByteArray.toList, hloop, List.reverse_nil, List.nil_append, List.drop_zero]

namespace Content

theorem data_text (s : String) :
    (Content.text s).data = s.toList.flatMap String.utf8EncodeChar := by
  have hbytes : s.toUTF8 = (s.toList.flatMap String.utf8EncodeChar).toByteArray :=
    String.utf8Encode_toList.symm
  rw [data, hbytes, toList_byteArray, List.toList_data_toByteArray]

/-- A text is read as it was written, with its line ends unified. -/
theorem text?_text (s : String) :
    (Content.text s).text? = some (String.ofList (Text.unifyLineEnds s.toList)) := by
  rw [text?, data_text, Encoding.decode, Encoding.decodeFrom_chars]
  rfl

end Content

theorem Text.unifyLineEnds_of_not_mem {s : List Char} (h : '\r' ∉ s) : unifyLineEnds s = s := by
  unfold unifyLineEnds
  induction s with
  | nil => rfl
  | cons c s ih =>
    have hc : c ≠ '\r' := fun hc => h (hc ▸ List.mem_cons_self)
    rw [List.foldr_cons, consUnified, if_neg hc]
    exact congrArg (c :: ·) (ih fun hs => h (List.mem_cons_of_mem _ hs))

end ClassReference
