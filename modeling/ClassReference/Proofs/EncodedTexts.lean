import ClassReference.Proofs.Utf8

/-!
# Proofs: bytes that are a text

Each encoding gives a character its bytes, and a text is encoded by those of its characters one
after the other (`Encoding.Encodes`). Bytes are decoded without a fault exactly if they encode a
text, and then to that text (`Encoding.decode_eq_iff`). For UTF-8, the first byte of a character
says how many follow. The bounds on the second byte keep out longer forms of shorter characters, and
what the last byte completes is no surrogate.
-/

namespace ClassReference

namespace Encoding

/-- The bytes of a character, if it has any in the encoding. -/
def bytesOf (e : Encoding) (c : Char) : Option (List UInt8) :=
  match e with
  | utf8 => some (String.utf8EncodeChar c)
  | ascii => if c.toNat < 0x80 then some [UInt8.ofNat c.toNat] else none
  | latin1 => if c.toNat < 0x100 then some [UInt8.ofNat c.toNat] else none

/-- A text and its bytes. -/
inductive Encodes (e : Encoding) : (text : List Char) → (bytes : List UInt8) → Prop where
  /-- No character has no bytes. -/
  | nil : Encodes e [] []
  /-- A character is followed by the rest of the text. -/
  | cons {c : Char} {text : List Char} {b bytes : List UInt8} (hchar : e.bytesOf c = some b)
      (hrest : Encodes e text bytes) : Encodes e (c :: text) (b ++ bytes)

section

variable {e : Encoding} {i : Nat} {done text : List Char} {bytes : List UInt8}

theorem Encodes.append {text' : List Char} {bytes' : List UInt8} (h : e.Encodes text bytes)
    (h' : e.Encodes text' bytes') : e.Encodes (text ++ text') (bytes ++ bytes') := by
  induction h with
  | nil => exact h'
  | cons hchar _ ih =>
    rw [List.cons_append, List.append_assoc]
    exact .cons hchar ih

theorem encodes_replicate {c : Char} {b : List UInt8} (h : e.bytesOf c = some b) (n : Nat) :
    e.Encodes (List.replicate n c) (List.replicate n b).flatten := by
  induction n with
  | zero => exact .nil
  | succ n ih =>
    rw [List.replicate_succ, List.replicate_succ, List.flatten_cons]
    exact .cons h ih

/-! ## Encoded characters are decoded -/

theorem decodeFrom_bytesOf {c : Char} {b : List UInt8} (h : e.bytesOf c = some b) (i : Nat)
    (done : List Char) (bytes : List UInt8) :
    decodeFrom e i none done (b ++ bytes) = decodeFrom e (i + b.length) none (c :: done) bytes := by
  have hbyte : ∀ {n : Nat}, n < 0x100 → (UInt8.ofNat n).toNat = n :=
    fun hn => UInt8.toNat_ofNat_of_lt' hn
  cases e with
  | utf8 =>
    cases h
    exact decodeFrom_char c i done bytes
  | ascii =>
    simp only [bytesOf] at h
    split at h
    · rename_i hc
      cases h
      rw [List.singleton_append, decodeFrom, hbyte (by omega), step, if_pos hc, Char.ofNat_toNat]
      rfl
    · cases h
  | latin1 =>
    simp only [bytesOf] at h
    split at h
    · rename_i hc
      cases h
      rw [List.singleton_append, decodeFrom, hbyte hc, step, Char.ofNat_toNat]
      rfl
    · cases h

/-- The bytes of a text are decoded to it, and then those behind them. -/
theorem Encodes.decodeFrom_append (h : e.Encodes text bytes) (i : Nat) (done : List Char)
    (more : List UInt8) :
    decodeFrom e i none done (bytes ++ more) =
      decodeFrom e (i + bytes.length) none (text.reverse ++ done) more := by
  induction h generalizing i done with
  | nil => rfl
  | cons hchar _ ih =>
    rw [List.append_assoc, decodeFrom_bytesOf hchar, ih, List.length_append, Nat.add_assoc,
      List.reverse_cons, List.append_assoc, List.singleton_append]

theorem Encodes.decode_append (h : e.Encodes text bytes) (more : List UInt8) :
    e.decode (bytes ++ more) = decodeFrom e bytes.length none text.reverse more := by
  rw [decode, h.decodeFrom_append, Nat.zero_add, List.append_nil]

theorem Encodes.decode_eq (h : e.Encodes text bytes) : e.decode bytes = ⟨text, none⟩ := by
  have hdecode := h.decode_append []
  rw [List.append_nil] at hdecode
  rw [hdecode, decodeFrom, List.reverse_reverse]

/-! ## Bytes without a fault begin with a character -/

theorem toNat_ofNat {v : Nat} (h : v < 0xD800 ∨ 0xDFFF < v ∧ v < 0x110000) :
    (Char.ofNat v).toNat = v := by
  have hvalid : v.isValidChar := h
  rw [Char.ofNat, dif_pos hvalid]
  rfl

/-- A byte that is owed lies within its bounds. If more are owed, they are without a fault too, and
otherwise it completes no surrogate. -/
theorem exists_of_owed {count low high bits : Nat}
    (h : (decodeFrom utf8 i (some ⟨count, low, high, bits⟩) done bytes).fault = none) :
    ∃ b rest, bytes = b :: rest ∧ low ≤ b.toNat ∧ b.toNat ≤ high ∧
      (1 < count → (decodeFrom utf8 (i + 1)
        (some ⟨count - 1, 0x80, 0xBF, bits * 64 + (b.toNat - 0x80)⟩) done rest).fault = none) ∧
      (count ≤ 1 → isSurrogate (bits * 64 + (b.toNat - 0x80)) = false) := by
  cases bytes with
  | nil => simp [decodeFrom] at h
  | cons b rest =>
    rw [decodeFrom, step, utf8Next] at h
    by_cases hrange : low ≤ b.toNat ∧ b.toNat ≤ high
    · refine ⟨b, rest, rfl, hrange.1, hrange.2, fun hcount => ?_, fun hcount => ?_⟩
      · simpa [if_pos hrange, if_pos hcount] using h
      · by_contra hsurrogate
        rw [Bool.not_eq_false] at hsurrogate
        simp [Nat.not_lt.mpr hcount, hsurrogate] at h
    · simp [if_neg hrange] at h

theorem lt_of_utf8First_char {n : Nat} {c : Char} (h : utf8First n = .char c) : n < 0x80 := by
  by_contra hn
  rw [utf8First, if_neg hn] at h
  repeat' split at h
  all_goals cases h

/-- What the first byte of a character says about those that follow. -/
theorem utf8First_owed {n : Nat} {o : Owed} (h : utf8First n = .owed o) :
    (0xC2 ≤ n ∧ n ≤ 0xDF ∧ o = ⟨1, 0x80, 0xBF, n - 0xC0⟩) ∨
      (∃ low high, 0xE0 ≤ n ∧ n ≤ 0xEF ∧ 0x80 ≤ low ∧ high ≤ 0xBF ∧ (n = 0xE0 → 0xA0 ≤ low) ∧
        o = ⟨2, low, high, n - 0xE0⟩) ∨
      ∃ low high, 0xF0 ≤ n ∧ n ≤ 0xF4 ∧ 0x80 ≤ low ∧ high ≤ 0xBF ∧ (n = 0xF0 → 0x90 ≤ low) ∧
        (n = 0xF4 → high ≤ 0x8F) ∧ o = ⟨3, low, high, n - 0xF0⟩ := by
  unfold utf8First at h
  split at h
  · cases h
  split at h
  · rename_i hn
    exact .inl ⟨hn.1, hn.2, (Step.owed.inj h).symm⟩
  split at h
  · rename_i hn
    subst hn
    refine .inr (.inl ⟨0xA0, 0xBF, ?_, ?_, ?_, ?_, ?_, (Step.owed.inj h).symm⟩) <;> omega
  split at h
  · refine .inr (.inl ⟨0x80, 0xBF, ?_, ?_, ?_, ?_, ?_, (Step.owed.inj h).symm⟩) <;> omega
  split at h
  · rename_i hn
    subst hn
    refine .inr (.inr ⟨0x90, 0xBF, ?_, ?_, ?_, ?_, ?_, ?_, (Step.owed.inj h).symm⟩) <;> omega
  split at h
  · refine .inr (.inr ⟨0x80, 0xBF, ?_, ?_, ?_, ?_, ?_, ?_, (Step.owed.inj h).symm⟩) <;> omega
  split at h
  · rename_i hn
    subst hn
    refine .inr (.inr ⟨0x80, 0x8F, ?_, ?_, ?_, ?_, ?_, ?_, (Step.owed.inj h).symm⟩) <;> omega
  · cases h

theorem ofNat_eq {n : Nat} {b : UInt8} (h : n = b.toNat) : UInt8.ofNat n = b := by
  rw [h, UInt8.ofNat_toNat]

theorem encodeChar_one {b : UInt8} (h : b.toNat < 0x80) :
    String.utf8EncodeChar (Char.ofNat b.toNat) = [b] := by
  rw [String.utf8EncodeChar, Char.toNat_val, toNat_ofNat (by omega), if_pos (by omega),
    UInt8.ofNat_toNat]

theorem encodeChar_two {b b₁ : UInt8} (hb : 0xC2 ≤ b.toNat) (hb' : b.toNat ≤ 0xDF)
    (h₁ : 0x80 ≤ b₁.toNat) (h₁' : b₁.toNat ≤ 0xBF) :
    String.utf8EncodeChar (Char.ofNat ((b.toNat - 0xC0) * 64 + (b₁.toNat - 0x80))) = [b, b₁] := by
  rw [String.utf8EncodeChar, Char.toNat_val, toNat_ofNat (by omega), if_neg (by omega),
    if_pos (by omega), ofNat_eq (b := b) (by omega), ofNat_eq (b := b₁) (by omega)]

theorem encodeChar_three {b b₁ b₂ : UInt8} (hb : 0xE0 ≤ b.toNat) (hb' : b.toNat ≤ 0xEF)
    (h₁ : 0x80 ≤ b₁.toNat) (h₁' : b₁.toNat ≤ 0xBF) (hE0 : b.toNat = 0xE0 → 0xA0 ≤ b₁.toNat)
    (h₂ : 0x80 ≤ b₂.toNat) (h₂' : b₂.toNat ≤ 0xBF)
    (hvalid : isSurrogate (((b.toNat - 0xE0) * 64 + (b₁.toNat - 0x80)) * 64 + (b₂.toNat - 0x80)) =
      false) :
    String.utf8EncodeChar
      (Char.ofNat (((b.toNat - 0xE0) * 64 + (b₁.toNat - 0x80)) * 64 + (b₂.toNat - 0x80))) =
        [b, b₁, b₂] := by
  rw [isSurrogate, Bool.and_eq_false_iff, decide_eq_false_iff_not,
    decide_eq_false_iff_not] at hvalid
  rw [String.utf8EncodeChar, Char.toNat_val, toNat_ofNat (by omega), if_neg (by omega),
    if_neg (by omega), if_pos (by omega), ofNat_eq (b := b) (by omega),
    ofNat_eq (b := b₁) (by omega), ofNat_eq (b := b₂) (by omega)]

theorem encodeChar_four {b b₁ b₂ b₃ : UInt8} (hb : 0xF0 ≤ b.toNat) (hb' : b.toNat ≤ 0xF4)
    (h₁ : 0x80 ≤ b₁.toNat) (h₁' : b₁.toNat ≤ 0xBF) (hF0 : b.toNat = 0xF0 → 0x90 ≤ b₁.toNat)
    (hF4 : b.toNat = 0xF4 → b₁.toNat ≤ 0x8F) (h₂ : 0x80 ≤ b₂.toNat) (h₂' : b₂.toNat ≤ 0xBF)
    (h₃ : 0x80 ≤ b₃.toNat) (h₃' : b₃.toNat ≤ 0xBF) :
    String.utf8EncodeChar
      (Char.ofNat ((((b.toNat - 0xF0) * 64 + (b₁.toNat - 0x80)) * 64 + (b₂.toNat - 0x80)) * 64 +
        (b₃.toNat - 0x80))) =
        [b, b₁, b₂, b₃] := by
  rw [String.utf8EncodeChar, Char.toNat_val, toNat_ofNat (by omega), if_neg (by omega),
    if_neg (by omega), if_neg (by omega), ofNat_eq (b := b) (by omega), ofNat_eq (b := b₁)
    (by omega), ofNat_eq (b := b₂) (by omega), ofNat_eq (b := b₃) (by omega)]

/-- Bytes without a fault begin with a character in UTF-8. -/
theorem exists_utf8_char {b : UInt8} (h : (decodeFrom utf8 i none done (b :: bytes)).fault = none) :
    ∃ c rest, b :: bytes = String.utf8EncodeChar c ++ rest := by
  rw [decodeFrom, step] at h
  cases hfirst : utf8First b.toNat with
  | char c => exact ⟨_, bytes, by rw [encodeChar_one (lt_of_utf8First_char hfirst)]; rfl⟩
  | refused =>
    rw [hfirst] at h
    cases h
  | owed o =>
    rw [hfirst] at h
    rcases utf8First_owed hfirst with ⟨hb, hb', rfl⟩ | ⟨low, high, hb, hb', hlow, hhigh, hE0, rfl⟩ |
      ⟨low, high, hb, hb', hlow, hhigh, hF0, hF4, rfl⟩
    · obtain ⟨b₁, rest, rfl, h₁, h₁', -, -⟩ := exists_of_owed h
      exact ⟨_, rest, by rw [encodeChar_two hb hb' h₁ h₁']; rfl⟩
    · obtain ⟨b₁, rest₁, rfl, h₁, h₁', hmore, -⟩ := exists_of_owed h
      obtain ⟨b₂, rest, rfl, h₂, h₂', -, hvalid⟩ := exists_of_owed (hmore (by decide))
      have hchar := encodeChar_three hb hb' (by omega) (by omega) (by omega) h₂ h₂'
        (hvalid (by decide))
      exact ⟨_, rest, by rw [hchar]; rfl⟩
    · obtain ⟨b₁, rest₁, rfl, h₁, h₁', hmore, -⟩ := exists_of_owed h
      obtain ⟨b₂, rest₂, rfl, h₂, h₂', hmore, -⟩ := exists_of_owed (hmore (by decide))
      obtain ⟨b₃, rest, rfl, h₃, h₃', -, -⟩ := exists_of_owed (hmore (by decide))
      have hchar :=
        @encodeChar_four b b₁ b₂ b₃ hb hb' (by omega) (by omega) (by omega) (by omega) h₂ h₂' h₃ h₃'
      exact ⟨_, rest, by rw [hchar]; rfl⟩

/-- Bytes without a fault begin with a character. -/
theorem exists_char {b : UInt8} (h : (decodeFrom e i none done (b :: bytes)).fault = none) :
    ∃ c first rest, e.bytesOf c = some first ∧ first ≠ [] ∧ b :: bytes = first ++ rest := by
  have hsize : b.toNat < 0x100 := b.toNat_lt
  cases e with
  | utf8 =>
    obtain ⟨c, rest, hc⟩ := exists_utf8_char h
    exact ⟨c, _, rest, rfl, String.utf8EncodeChar_ne_nil, hc⟩
  | ascii =>
    rw [decodeFrom, step] at h
    by_cases hb : b.toNat < 0x80
    · refine ⟨Char.ofNat b.toNat, [b], bytes, ?_, List.cons_ne_nil _ _, rfl⟩
      rw [bytesOf, toNat_ofNat (by omega), if_pos hb, UInt8.ofNat_toNat]
    · simp [if_neg hb] at h
  | latin1 =>
    refine ⟨Char.ofNat b.toNat, [b], bytes, ?_, List.cons_ne_nil _ _, rfl⟩
    rw [bytesOf, toNat_ofNat (by omega), if_pos hsize, UInt8.ofNat_toNat]

theorem exists_encodes (h : (decodeFrom e i none done bytes).fault = none) :
    ∃ text, e.Encodes text bytes := by
  -- what is left behind the first character is shorter
  induction hn : bytes.length using Nat.strong_induction_on generalizing i done bytes with
  | _ n ih =>
    cases bytes with
    | nil => exact ⟨[], .nil⟩
    | cons b bytes =>
      obtain ⟨c, first, rest, hc, hfirst, hbytes⟩ := exists_char h
      have hshort : rest.length < n := by
        have hpos := List.length_pos_iff.mpr hfirst
        have hlength := congrArg List.length hbytes
        rw [List.length_append] at hlength
        omega
      rw [hbytes, decodeFrom_bytesOf hc] at h
      obtain ⟨text, htext⟩ := ih rest.length hshort h rfl
      exact ⟨c :: text, hbytes ▸ .cons hc htext⟩

/-- Bytes are decoded to a text without a fault exactly if they encode it. -/
theorem decode_eq_iff : e.decode bytes = ⟨text, none⟩ ↔ e.Encodes text bytes := by
  refine ⟨fun h => ?_, Encodes.decode_eq⟩
  obtain ⟨text', htext'⟩ := exists_encodes (show (e.decode bytes).fault = none by rw [h])
  rw [htext'.decode_eq] at h
  cases h
  exact htext'

end

end Encoding

end ClassReference
