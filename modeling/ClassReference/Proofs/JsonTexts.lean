import ClassReference.Json.Reading
import Mathlib.Data.List.Basic

/-!
# Proofs: texts and numbers in JSON

A text or a number is read as it was written, whatever stands behind it. A code point is written in
one of four ways (`Json.CodeForm`), and each of them is read back (`Json.readCodes_codeText`).

There is one thing that is not read as it was written. A high surrogate and a low one behind it are
written as the character that they stand for together is, and are read as that character
(`Text.joined`). Texts in which no high surrogate stands before a low one are read as they are.
-/

namespace ClassReference

/-! ## Surrogates -/

namespace CodePoint

variable {c high low : CodePoint}

theorem isHigh_iff : c.isHigh = true ↔ 0xD800 ≤ c.val ∧ c.val < 0xDC00 := by
  rw [isHigh, Bool.and_eq_true, decide_eq_true_iff, decide_eq_true_iff]

theorem isLow_iff : c.isLow = true ↔ 0xDC00 ≤ c.val ∧ c.val < 0xE000 := by
  rw [isLow, Bool.and_eq_true, decide_eq_true_iff, decide_eq_true_iff]

theorem val_join (hhigh : high.isHigh = true) (hlow : low.isLow = true) :
    (high.join low).val = 0x10000 + (high.val - 0xD800) * 0x400 + (low.val - 0xDC00) := by
  rw [isHigh_iff] at hhigh
  rw [isLow_iff] at hlow
  exact Nat.mod_eq_of_lt (by omega)

/-- Each code point beyond U+FFFF is that of a pair of surrogates. -/
theorem exists_join (h : 0x10000 ≤ c.val) :
    ∃ high low : CodePoint, high.isHigh = true ∧ low.isLow = true ∧ high.join low = c := by
  have hc := c.isLt
  let high : CodePoint := ⟨0xD800 + (c.val - 0x10000) / 0x400, by omega⟩
  let low : CodePoint := ⟨0xDC00 + (c.val - 0x10000) % 0x400, by omega⟩
  have hhigh : high.isHigh = true := isHigh_iff.mpr ⟨by simp [high], by simp only [high]; omega⟩
  have hlow : low.isLow = true := isLow_iff.mpr ⟨by simp [low], by simp only [low]; omega⟩
  refine ⟨high, low, hhigh, hlow, Fin.ext ?_⟩
  rw [val_join hhigh hlow]
  simp only [high, low]
  omega

/-- No character is a surrogate. -/
theorem ofChar_valid (c : Char) : (ofChar c).val < 0xD800 ∨ 0xE000 ≤ (ofChar c).val := by
  rcases c.valid with h | h
  · exact Or.inl h
  · exact Or.inr h.1

@[simp] theorem isHigh_ofChar (c : Char) : (ofChar c).isHigh = false := by
  have hvalid := ofChar_valid c
  rw [← Bool.not_eq_true, isHigh_iff]
  omega

end CodePoint

namespace Text

/-- The code points with each high surrogate that a low one follows joined with it. -/
def joined : List CodePoint → List CodePoint
  | [] => []
  | [c] => [c]
  | high :: low :: rest =>
    if high.isHigh && low.isLow then high.join low :: joined rest
    else high :: joined (low :: rest)

/-- No high surrogate stands right before a low one. -/
def Unpaired (s : List CodePoint) : Prop :=
  s.IsChain fun high low => ¬ (high.isHigh = true ∧ low.isLow = true)

theorem joined_of_unpaired {s : List CodePoint} (h : Unpaired s) : joined s = s := by
  fun_induction joined s with
  | case1 => rfl
  | case2 => rfl
  | case3 high low rest hpair ih =>
    rw [Unpaired, List.isChain_cons_cons] at h
    exact absurd (Bool.and_eq_true _ _ ▸ hpair) h.1
  | case4 high low rest hpair ih =>
    rw [Unpaired, List.isChain_cons_cons] at h
    rw [ih h.2]

theorem length_joined_le (s : List CodePoint) : (joined s).length ≤ s.length := by
  fun_induction joined s with
  | case1 => exact Nat.le_refl _
  | case2 => exact Nat.le_refl _
  | case3 high low rest hpair ih =>
    simp only [List.length_cons]
    omega
  | case4 high low rest hpair ih => exact Nat.succ_le_succ ih

/-- A text is left as it is exactly if it has no surrogates to join. -/
theorem joined_eq_self_iff {s : List CodePoint} : joined s = s ↔ Unpaired s := by
  refine ⟨fun h => ?_, joined_of_unpaired⟩
  fun_induction joined s with
  | case1 => exact .nil
  | case2 => exact .singleton _
  | case3 high low rest hpair ih =>
    -- a pair that is joined makes the text shorter
    have hle := length_joined_le rest
    have hlength := congrArg List.length h
    simp only [List.length_cons] at hlength
    omega
  | case4 high low rest hpair ih =>
    rw [Bool.and_eq_true] at hpair
    exact List.isChain_cons_cons.mpr ⟨hpair, ih (List.cons.inj h).2⟩

/-- Characters have no surrogates among them. -/
theorem unpaired_codes (s : String) : Unpaired (codes s) := by
  have hchain : ∀ cs : List Char, Unpaired (cs.map CodePoint.ofChar) := by
    intro cs
    induction cs with
    | nil => exact .nil
    | cons c cs ih =>
      cases cs with
      | nil => exact .singleton _
      | cons d cs => exact List.isChain_cons_cons.mpr ⟨by simp, ih⟩
  exact hchain s.toList

end Text

namespace Json

open Text

/-! ## Code points -/

theorem hexValue?_hexDigit : ∀ n < 16, hexValue? (hexDigit n) = some n := by
  decide

theorem readUnit_hexDigits {c : CodePoint} (h : c.val < 0x10000) (rest : List Char) :
    readUnit (hexDigits 4 c.val ++ rest) = some (c, rest) := by
  have hdigit : ∀ m, hexValue? (hexDigit (m % 16)) = some (m % 16) :=
    fun m => hexValue?_hexDigit _ (Nat.mod_lt _ (by omega))
  have hsum : (c.val / 16 / 16 / 16 % 16 * 16 + c.val / 16 / 16 % 16) * 256 +
      (c.val / 16 % 16 * 16 + c.val % 16) = c.val := by omega
  have hcode : CodePoint.ofNat c.val = c := Fin.ext (Nat.mod_eq_of_lt c.isLt)
  simp only [hexDigits, List.nil_append, List.cons_append, readUnit, hdigit, Option.bind_eq_bind,
    Option.bind_some]
  rw [hsum, hcode]
  rfl

/-- The ways in which a code point is written. -/
inductive CodeForm (c : CodePoint) : List Char → Prop where
  /-- An escape of one letter. -/
  | letter {d : Char} (hd : d ≠ 'u') (hplain : 0x20 ≤ d.toNat ∧ d.toNat < 0x7F)
      (hread : ∀ rest, readEscape (d :: rest) = some (c, rest)) : CodeForm c ['\\', d]
  /-- The character itself. -/
  | plain {d : Char} (hd : d ≠ '\\') (hquote : d ≠ doubleQuote)
      (hplain : 0x20 ≤ d.toNat ∧ d.toNat < 0x7F) (hcode : CodePoint.ofChar d = c) : CodeForm c [d]
  /-- An escape of its digits. -/
  | unit (h : c.val < 0x10000) : CodeForm c (unitEscape c.val)
  /-- The escapes of two surrogates. -/
  | pair {high low : CodePoint} (hhigh : high.isHigh = true) (hlow : low.isLow = true)
      (hjoin : high.join low = c) : CodeForm c (unitEscape high.val ++ unitEscape low.val)

theorem toNat_ofNat_of_lt {n : Nat} (h : n < 0x80) : (Char.ofNat n).toNat = n := by
  have hvalid : n.isValidChar := Or.inl (by omega)
  rw [Char.ofNat, dif_pos hvalid]
  rfl

/-- Every code point is written in one of these ways. -/
theorem codeForm (c : CodePoint) : CodeForm c (codeText c) := by
  have hletter : ∀ {d : Char} (k : CodePoint), c.val = k.val → d ≠ 'u' →
      (0x20 ≤ d.toNat ∧ d.toNat < 0x7F) → (∀ rest, readEscape (d :: rest) = some (k, rest)) →
      CodeForm c ['\\', d] := by
    intro d k hc hd hplain hread
    obtain rfl : c = k := Fin.ext hc
    exact .letter hd hplain hread
  fun_cases codeText c with
  | case1 h => exact hletter 0x22 h (by decide) (by decide) fun _ => rfl
  | case2 _ h => exact hletter 0x5C h (by decide) (by decide) fun _ => rfl
  | case3 _ _ h => exact hletter 0x0A h (by decide) (by decide) fun _ => rfl
  | case4 _ _ _ h => exact hletter 0x0D h (by decide) (by decide) fun _ => rfl
  | case5 _ _ _ _ h => exact hletter 0x09 h (by decide) (by decide) fun _ => rfl
  | case6 _ _ _ _ _ h => exact hletter 0x0C h (by decide) (by decide) fun _ => rfl
  | case7 _ _ _ _ _ _ h => exact hletter 0x08 h (by decide) (by decide) fun _ => rfl
  | case8 hquote hbackslash _ _ _ _ _ hplain =>
    have hval : (Char.ofNat c.val).toNat = c.val := toNat_ofNat_of_lt (by omega)
    refine .plain (fun heq => hbackslash ?_) (fun heq => hquote ?_) (by rwa [hval]) (Fin.ext hval)
    · rw [← hval, heq]
      rfl
    · rw [← hval, heq]
      rfl
  | case9 _ _ _ _ _ _ _ _ hunit => exact .unit hunit
  | case10 _ _ _ _ _ _ _ _ hunit =>
    obtain ⟨high, low, hhigh, hlow, hjoin⟩ := CodePoint.exists_join (Nat.le_of_not_lt hunit)
    have hval := CodePoint.val_join hhigh hlow
    have hhigh' := CodePoint.isHigh_iff.mp hhigh
    have hlow' := CodePoint.isLow_iff.mp hlow
    rw [hjoin] at hval
    rw [show 0xD800 + (c.val - 0x10000) / 0x400 = high.val by omega,
      show 0xDC00 + (c.val - 0x10000) % 0x400 = low.val by omega]
    exact .pair hhigh hlow hjoin

section

variable {c high low : CodePoint}

theorem codeText_of_surrogate (h : 0xD800 ≤ c.val) (h' : c.val < 0xE000) :
    codeText c = unitEscape c.val := by
  unfold codeText
  iterate 8 rw [if_neg (by omega)]
  rw [if_pos (by omega)]

/-- A pair of surrogates is written like the character that it stands for. -/
theorem codeText_join (hhigh : high.isHigh = true) (hlow : low.isLow = true) :
    codeText (high.join low) = codeText high ++ codeText low := by
  have hval := CodePoint.val_join hhigh hlow
  rw [CodePoint.isHigh_iff] at hhigh
  rw [CodePoint.isLow_iff] at hlow
  rw [codeText_of_surrogate (c := high) (by omega) (by omega),
    codeText_of_surrogate (c := low) (by omega) (by omega)]
  unfold codeText
  iterate 9 rw [if_neg (by omega)]
  rw [show 0xD800 + ((high.join low).val - 0x10000) / 0x400 = high.val by omega,
    show 0xDC00 + ((high.join low).val - 0x10000) % 0x400 = low.val by omega]

theorem codeText_ne_nil (c : CodePoint) : codeText c ≠ [] := by
  have hform := codeForm c
  generalize codeText c = w at hform ⊢
  cases hform <;> simp [unitEscape]

theorem readLow_unitEscape (h : c.val < 0x10000) (rest : List Char) :
    readLow (unitEscape c.val ++ rest) = if c.isLow then some (c, rest) else none := by
  rw [unitEscape, List.cons_append, List.cons_append, readLow, readUnit_hexDigits h,
    Option.filter_some]

/-- What is no low surrogate is not written like one. -/
theorem readLow_codeText (h : c.isLow = false) (rest : List Char) :
    readLow (codeText c ++ rest) = none := by
  have hform := codeForm c
  generalize codeText c = w at hform ⊢
  cases hform with
  | letter hd =>
    refine readLow.eq_2 _ fun rest' heq => hd ?_
    exact (List.cons.inj (List.cons.inj heq).2).1
  | plain hd => exact readLow.eq_2 _ fun rest' heq => hd (List.cons.inj heq).1
  | unit hunit =>
    rw [readLow_unitEscape hunit, h]
    rfl
  | pair hhigh hlow hjoin =>
    -- the escape that comes first is that of a high surrogate
    rw [CodePoint.isHigh_iff] at hhigh
    rw [List.append_assoc, readLow_unitEscape (by omega), if_neg]
    rw [CodePoint.isLow_iff]
    omega

theorem readCode_unit (h : c.val < 0x10000) {rest : List Char}
    (hrest : c.isHigh = true → readLow rest = none) :
    readCode (hexDigits 4 c.val ++ rest) = some (c, rest) := by
  rw [readCode, readUnit_hexDigits h]
  simp only [Option.bind_eq_bind, Option.bind_some]
  cases hhigh : c.isHigh with
  | true => rw [hrest hhigh]; rfl
  | false => cases readLow rest <;> rfl

theorem readCode_pair (hhigh : high.isHigh = true) (hlow : low.isLow = true) (rest : List Char) :
    readCode (hexDigits 4 high.val ++ (unitEscape low.val ++ rest)) =
      some (high.join low, rest) := by
  have hhigh' := CodePoint.isHigh_iff.mp hhigh
  have hlow' := CodePoint.isLow_iff.mp hlow
  rw [readCode, readUnit_hexDigits (by omega)]
  simp only [Option.bind_eq_bind, Option.bind_some]
  rw [readLow_unitEscape (by omega), hlow, hhigh]
  rfl

end

/-- What an escape stands for is read, and then the rest. -/
theorem readCodes_escape {c : CodePoint} {w rest : List Char}
    (hread : readEscape w = some (c, rest)) (n : Nat) :
    readCodes (n + 1) ('\\' :: w) = (readCodes n rest).map fun p => (c :: p.1, p.2) := by
  have hquote : '\\' ≠ doubleQuote := by decide
  rw [readCodes, if_neg hquote, if_pos rfl, hread]
  simp only [Option.bind_eq_bind, Option.bind_some]
  cases readCodes n rest <;> rfl

theorem readEscape_unit (rest : List Char) : readEscape ('u' :: rest) = readCode rest := rfl

/-- A pair of surrogates is read as the character that it stands for. -/
theorem readCodes_pair {high low : CodePoint} (hhigh : high.isHigh = true) (hlow : low.isLow = true)
    (n : Nat) (rest : List Char) :
    readCodes (n + 1) (unitEscape high.val ++ unitEscape low.val ++ rest) =
      (readCodes n rest).map fun p => (high.join low :: p.1, p.2) := by
  rw [List.append_assoc]
  exact readCodes_escape ((readEscape_unit _).trans (readCode_pair hhigh hlow rest)) n

/-- A code point is read from what it was written as, and then the rest, unless it is a high
surrogate and what follows begins like a low one. -/
theorem readCodes_codeText {c : CodePoint} {rest : List Char}
    (hrest : c.isHigh = true → readLow rest = none) (n : Nat) :
    readCodes (n + 1) (codeText c ++ rest) = (readCodes n rest).map fun p => (c :: p.1, p.2) := by
  have hform := codeForm c
  generalize codeText c = w at hform ⊢
  cases hform with
  | letter hd hplain hread => exact readCodes_escape (hread rest) n
  | plain hd hquote hplain hcode =>
    rw [List.singleton_append, readCodes, if_neg hquote, if_neg hd, if_neg (by omega), hcode]
    cases readCodes n rest <;> rfl
  | unit hunit =>
    exact readCodes_escape ((readEscape_unit _).trans (readCode_unit hunit hrest)) n
  | pair hhigh hlow hjoin => exact hjoin ▸ readCodes_pair hhigh hlow n rest

/-! ## Texts -/

/-- A text is read with its surrogates joined. -/
theorem readCodes_flatMap (s : List CodePoint) {n : Nat} (h : s.length < n) (rest : List Char) :
    readCodes n (s.flatMap codeText ++ doubleQuote :: rest) = some (joined s, rest) := by
  have hquote : readLow (doubleQuote :: rest) = none := rfl
  have hend : ∀ {k : Nat}, readCodes (k + 1) (doubleQuote :: rest) = some ([], rest) := by
    intro k
    rw [readCodes, if_pos rfl]
  fun_induction joined s generalizing n with
  | case1 =>
    obtain ⟨k, rfl⟩ := Nat.exists_eq_add_of_lt h
    exact hend
  | case2 c =>
    obtain ⟨k, rfl⟩ : ∃ k, n = k + 2 := ⟨n - 2, by rw [List.length_singleton] at h; omega⟩
    rw [List.flatMap_singleton, readCodes_codeText fun _ => hquote, hend]
    rfl
  | case3 high low cs hpair ih =>
    rw [Bool.and_eq_true] at hpair
    rw [List.length_cons, List.length_cons] at h
    obtain ⟨k, rfl⟩ : ∃ k, n = k + 1 := ⟨n - 1, by omega⟩
    have hhigh := CodePoint.isHigh_iff.mp hpair.1
    have hlow := CodePoint.isLow_iff.mp hpair.2
    rw [List.flatMap_cons, List.flatMap_cons, ← List.append_assoc, List.append_assoc,
      codeText_of_surrogate (c := high) (by omega) (by omega),
      codeText_of_surrogate (c := low) (by omega) (by omega), readCodes_pair hpair.1 hpair.2,
      ih (by omega)]
    rfl
  | case4 high low cs hpair ih =>
    rw [List.length_cons] at h
    obtain ⟨k, rfl⟩ : ∃ k, n = k + 1 := ⟨n - 1, by omega⟩
    have hrest : high.isHigh = true →
        readLow ((low :: cs).flatMap codeText ++ doubleQuote :: rest) = none := by
      intro hhigh
      have hlow : low.isLow = false := by simpa [hhigh] using hpair
      rw [List.flatMap_cons, List.append_assoc, readLow_codeText hlow]
    rw [List.flatMap_cons, List.append_assoc, readCodes_codeText hrest, ih (by omega)]
    rfl

theorem length_le_stringText (s : List CodePoint) : s.length + 2 ≤ (stringText s).length := by
  have hle : s.length ≤ (s.flatMap codeText).length := by
    induction s with
    | nil => exact Nat.le_refl 0
    | cons c s ih =>
      have hpos := List.length_pos_iff.mpr (codeText_ne_nil c)
      rw [List.flatMap_cons, List.length_append, List.length_cons]
      omega
  simp only [stringText, List.length_cons, List.length_append, List.length_nil]
  omega

theorem readString_stringText (s : List CodePoint) {n : Nat} (h : (stringText s).length ≤ n + 1)
    (rest : List Char) : readString n (stringText s ++ rest) = some (joined s, rest) := by
  have hle := length_le_stringText s
  rw [stringText, List.cons_append, List.cons_append, List.append_assoc, List.singleton_append,
    readString, if_pos rfl]
  exact readCodes_flatMap s (by omega) rest

/-! ## Numbers -/

/-- What follows does not go on with a number. -/
def EndsNumber (rest : List Char) : Prop :=
  ∀ c ∈ rest.head?, c.isDigit = false ∧ c ∉ ['.', 'e', 'E']

theorem ofDigits_toDigits (n : Nat) : ofDigits (Nat.toDigits 10 n) = n := by
  have hfold := Nat.ofDigitChars_ten_toDigits (n := n)
  rw [Nat.ofDigitChars_eq_foldl] at hfold
  rw [ofDigits, ← hfold]
  congr 1
  · funext m d
    rw [Nat.mul_comm]
    rfl
  · rw [hfold]

theorem isDigit_of_mem_toDigits {n : Nat} {c : Char} (h : c ∈ Nat.toDigits 10 n) :
    c.isDigit = true :=
  Nat.isDigit_of_mem_toDigits (by omega) (by omega) h

/-- The digits of a number do not begin with a zero, unless it is zero itself. -/
theorem head?_toDigits {n : Nat} (h : 0 < n) : (Nat.toDigits 10 n).head? ≠ some '0' := by
  induction n using Nat.strongRecOn with
  | ind n ih =>
    by_cases hn : n < 10
    · have hdigit : ∀ m < 10, 0 < m → [Nat.digitChar m].head? ≠ some '0' := by decide
      rw [Nat.toDigits_of_lt_base hn]
      exact hdigit n hn h
    · rw [Nat.toDigits_of_base_le (by omega) (by omega), List.head?_append_of_ne_nil]
      · exact ih (n / 10) (by omega) (by omega)
      · exact Nat.toDigits_ne_nil

theorem readWhole_toDigits (n : Nat) {rest : List Char} (hrest : EndsNumber rest) :
    readWhole (Nat.toDigits 10 n ++ rest) = some (Nat.toDigits 10 n, rest) := by
  have hdigits : ∀ c ∈ Nat.toDigits 10 n, c.isDigit = true := fun c hc => isDigit_of_mem_toDigits hc
  have hstop : rest.takeWhile Char.isDigit = [] ∧ rest.dropWhile Char.isDigit = rest := by
    cases rest with
    | nil => exact ⟨rfl, rfl⟩
    | cons c rest =>
      have hc : c.isDigit = false := (hrest c rfl).1
      simp [hc]
  have htake : (Nat.toDigits 10 n ++ rest).takeWhile Char.isDigit = Nat.toDigits 10 n := by
    rw [List.takeWhile_append_of_pos hdigits, hstop.1, List.append_nil]
  have hdrop : (Nat.toDigits 10 n ++ rest).dropWhile Char.isDigit = rest := by
    rw [List.dropWhile_append_of_pos hdigits, hstop.2]
  have hread : readDigits (Nat.toDigits 10 n ++ rest) = some (Nat.toDigits 10 n, rest) := by
    simp [readDigits, htake, hdrop]
  rw [readWhole, hread, Option.filter_some, if_pos]
  rcases Nat.eq_zero_or_pos n with rfl | hn
  · rfl
  · simpa using Or.inl (head?_toDigits hn)

theorem readFraction_end {rest : List Char} (hrest : EndsNumber rest) :
    readFraction rest = some ([], rest) := by
  refine readFraction.eq_2 rest fun rest' heq => ?_
  subst heq
  exact (hrest '.' rfl).2 (by decide)

theorem readExponent_end {rest : List Char} (hrest : EndsNumber rest) :
    readExponent rest = some ([], rest) := by
  cases rest with
  | nil => rfl
  | cons c rest =>
    have hc := (hrest c rfl).2
    simp only [List.mem_cons, not_or] at hc
    simp [readExponent, hc]

theorem toList_toString (i : Int) :
    (toString i).toList =
      if 0 ≤ i then Nat.toDigits 10 i.toNat else '-' :: Nat.toDigits 10 (-i).toNat := by
  rw [Int.toString_eq_repr, Int.repr_eq_if]
  split
  · rw [Nat.toList_repr]
  · rw [String.toList_append, Nat.toList_repr]
    rfl

/-- A whole number is read from its digits behind a sign. -/
theorem readNumber_toDigits {s sign : List Char} (n : Nat) {rest : List Char}
    (hsign : readSign ['-'] s = (sign, Nat.toDigits 10 n ++ rest)) (hrest : EndsNumber rest) :
    readNumber s = some (int (if sign.isEmpty then (n : Int) else -n), rest) := by
  rw [readNumber, hsign]
  simp only [readWhole_toDigits n hrest, readFraction_end hrest, readExponent_end hrest,
    ofDigits_toDigits, Option.bind_eq_bind, Option.bind_some]
  rfl

theorem readNumber_toString (i : Int) {rest : List Char} (hrest : EndsNumber rest) :
    readNumber ((toString i).toList ++ rest) = some (int i, rest) := by
  rw [toList_toString]
  split
  · rename_i hi
    have hsign : readSign ['-'] (Nat.toDigits 10 i.toNat ++ rest) =
        ([], Nat.toDigits 10 i.toNat ++ rest) := by
      cases hds : Nat.toDigits 10 i.toNat with
      | nil => exact absurd hds Nat.toDigits_ne_nil
      | cons d ds =>
        -- digits have no minus in front of them
        have hd : d.isDigit = true :=
          isDigit_of_mem_toDigits (by rw [hds]; exact List.mem_cons_self)
        have hne : d ≠ '-' := by
          rintro rfl
          cases hd
        rw [List.cons_append, readSign, if_neg (by simpa using hne)]
    rw [readNumber_toDigits _ hsign hrest]
    exact congrArg (fun k => some (int k, rest)) (Int.toNat_of_nonneg hi)
  · rename_i hi
    have hsign : readSign ['-'] ('-' :: (Nat.toDigits 10 (-i).toNat ++ rest)) =
        (['-'], Nat.toDigits 10 (-i).toNat ++ rest) := rfl
    rw [List.cons_append, readNumber_toDigits _ hsign hrest]
    refine congrArg (fun k => some (int k, rest)) ?_
    change -((-i).toNat : Int) = i
    omega

end Json

end ClassReference
