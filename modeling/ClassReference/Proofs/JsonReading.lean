import ClassReference.Proofs.JsonTexts

/-!
# Proofs: JSON is read as it was written

Data is read back by the function that reads such data, whatever stands behind it
(`Keyed.readsBack`). Reading takes no more steps than there are characters. Two entries of a mapping
with the same key would be read as one, so mappings are asked to have each key only once (`Keyed`).
-/

namespace ClassReference

namespace Json

open Text

/-! ## Values -/

mutual

/-- The data with the surrogates of its texts joined. -/
def joined : Json → Json
  | str s => str (Text.joined s)
  | list items => list (joinedItems items)
  | map entries => map (joinedEntries entries)
  | d => d

/-- Joins the surrogates in each item of a list. -/
def joinedItems : List Json → List Json
  | [] => []
  | d :: ds => joined d :: joinedItems ds

/-- Joins the surrogates in the value of each entry. -/
def joinedEntries : List (List CodePoint × Json) → List (List CodePoint × Json)
  | [] => []
  | (k, d) :: es => (k, joined d) :: joinedEntries es

end

/-- Each mapping in the data has each key only once, no key has surrogates that would be joined, and
all numbers are whole. -/
inductive Keyed : Json → Prop where
  | null : Keyed null
  | bool (b : Bool) : Keyed (bool b)
  | int (i : Int) : Keyed (int i)
  | str (s : List CodePoint) : Keyed (str s)
  | list {items : List Json} (h : ∀ d ∈ items, Keyed d) : Keyed (list items)
  | map {entries : List (List CodePoint × Json)} (hkeys : (entries.map (·.1)).Nodup)
      (hunpaired : ∀ e ∈ entries, Unpaired e.1) (h : ∀ e ∈ entries, Keyed e.2) :
      Keyed (map entries)

/-- The character is none of the blanks between the parts of JSON. -/
def Inked (c : Char) : Prop :=
  (c = ' ' || c = '\n' || c = '\r' || c = '\t') = false

theorem skipBlanks_cons {c : Char} (h : Inked c) (s : List Char) :
    skipBlanks (c :: s) = c :: s := by
  refine List.dropWhile_cons_of_neg ?_
  rw [h]
  exact Bool.false_ne_true

/-- A line break and the blanks behind it are skipped. -/
theorem skipBlanks_breakText (depth : Nat) (s : List Char) :
    skipBlanks (breakText depth ++ s) = skipBlanks s := by
  refine List.dropWhile_append_of_pos ?_
  intro c hc
  rcases List.mem_cons.mp hc with rfl | hc
  · rfl
  · rw [List.eq_of_mem_replicate hc]
    rfl

/-- Blanks before a value do not count. -/
theorem readValue_congr {s t : List Char} (h : skipBlanks s = skipBlanks t) (n : Nat) :
    readValue n s = readValue n t := by
  cases n with
  | zero => rfl
  | succ n => rw [readValue, readValue, h]

/-- The character may stand at the beginning of a number. -/
def StartsNumber (c : Char) : Prop :=
  c.isDigit = true ∨ c = '-'

theorem StartsNumber.ne {c x : Char} (h : StartsNumber c) (hdigit : x.isDigit = false)
    (hminus : x ≠ '-') : c ≠ x := by
  rintro rfl
  rcases h with h | h
  · rw [hdigit] at h
    cases h
  · exact hminus h

theorem StartsNumber.inked {c : Char} (h : StartsNumber c) : Inked c := by
  unfold Inked
  simp only [Bool.or_eq_false_iff, decide_eq_false_iff_not]
  exact ⟨⟨⟨h.ne rfl (by decide), h.ne rfl (by decide)⟩, h.ne rfl (by decide)⟩, h.ne rfl (by decide)⟩

/-- A whole number begins with a digit or a minus sign. -/
theorem exists_toString_cons (i : Int) :
    ∃ c cs, (toString i).toList = c :: cs ∧ StartsNumber c := by
  rw [toList_toString]
  split
  · cases hds : Nat.toDigits 10 i.toNat with
    | nil => exact absurd hds Nat.toDigits_ne_nil
    | cons d ds =>
      have hd : d ∈ Nat.toDigits 10 i.toNat := hds ▸ List.mem_cons_self
      exact ⟨d, ds, rfl, Or.inl (isDigit_of_mem_toDigits hd)⟩
  · exact ⟨'-', _, rfl, Or.inr rfl⟩

/-- A written value starts with a character that neither is blank nor closes a list. -/
theorem Keyed.exists_textAt_cons {d : Json} (h : Keyed d) (depth : Nat) :
    ∃ c cs, textAt depth d = c :: cs ∧ Inked c ∧ c ≠ ']' := by
  cases h with
  | null => exact ⟨'n', _, rfl, rfl, by decide⟩
  | bool b =>
    cases b with
    | true => exact ⟨'t', _, rfl, rfl, by decide⟩
    | false => exact ⟨'f', _, rfl, rfl, by decide⟩
  | int i =>
    obtain ⟨c, cs, hi, hc⟩ := exists_toString_cons i
    exact ⟨c, cs, hi, hc.inked, hc.ne rfl (by decide)⟩
  | str s => exact ⟨doubleQuote, _, rfl, rfl, by decide⟩
  | @list items => cases items <;> exact ⟨'[', _, rfl, rfl, by decide⟩
  | @map entries => cases entries <;> exact ⟨'{', _, rfl, rfl, by decide⟩

/-! ## Scalars -/

/-- A text that is written is read as the text with its surrogate pairs joined. -/
theorem readScalar_string (s : List CodePoint) {n : Nat} (h : (stringText s).length ≤ n + 1)
    (rest : List Char) :
    readScalar n (stringText s ++ rest) = some (str (Text.joined s), rest) := by
  have hread := readString_stringText s h rest
  unfold readScalar
  split
  · rename_i heq
    cases heq
  · rename_i heq
    cases heq
  · rename_i heq
    cases heq
  · rw [hread]

theorem readScalar_int (i : Int) (n : Nat) {rest : List Char} (hrest : EndsNumber rest) :
    readScalar n ((toString i).toList ++ rest) = some (int i, rest) := by
  have hread := readNumber_toString i hrest
  obtain ⟨c, cs, hi, hc⟩ := exists_toString_cons i
  rw [hi, List.cons_append] at hread ⊢
  have hstring : readString n (c :: (cs ++ rest)) = none := by
    rw [readString, if_neg (hc.ne rfl (by decide))]
  unfold readScalar
  split
  · rename_i heq
    exact absurd (List.cons.inj heq).1 (hc.ne rfl (by decide))
  · rename_i heq
    exact absurd (List.cons.inj heq).1 (hc.ne rfl (by decide))
  · rename_i heq
    exact absurd (List.cons.inj heq).1 (hc.ne rfl (by decide))
  · rw [hstring, hread]

/-! ## Steps of the reader -/

section Steps

variable {n : Nat} {s t u rest : List Char}

theorem readValue_scalar {c : Char} (hc : Inked c) (hlist : c ≠ '[') (hmap : c ≠ '{') :
    readValue (n + 1) (c :: s) = readScalar n (c :: s) := by
  rw [readValue, skipBlanks_cons hc]
  split
  · rename_i heq
    exact absurd (List.cons.inj heq).1 hlist
  · rename_i heq
    exact absurd (List.cons.inj heq).1 hmap
  · rfl

/-- A list is read item by item. -/
theorem readValue_list {d : Json} {ds : List Json} {c : Char} (ht : skipBlanks t = c :: s)
    (hc : c ≠ ']') (hd : readValue n (c :: s) = some (d, u))
    (hds : readItems n u = some (ds, rest)) :
    readValue (n + 1) ('[' :: t) = some (list (d :: ds), rest) := by
  rw [readValue, skipBlanks_cons (c := '[') rfl]
  simp only [ht]
  split
  · rename_i heq
    exact absurd (List.cons.inj heq).1 hc
  · simp only [hd, hds, Option.bind_eq_bind, Option.bind_some]
    rfl

theorem readItems_close (hs : skipBlanks s = ']' :: rest) :
    readItems (n + 1) s = some ([], rest) := by
  rw [readItems, hs]
  rfl

theorem readItems_comma {d : Json} {ds : List Json} (hs : skipBlanks s = ',' :: t)
    (hd : readValue n t = some (d, u)) (hds : readItems n u = some (ds, rest)) :
    readItems (n + 1) s = some (d :: ds, rest) := by
  rw [readItems, hs]
  simp only [hd, hds, Option.bind_eq_bind, Option.bind_some]
  rfl

/-- A mapping is read entry by entry; what a later entry has for a key replaces what was there. -/
theorem readValue_map {e : List CodePoint × Json} {es : List (List CodePoint × Json)} {c : Char}
    (ht : skipBlanks t = c :: s) (hc : c ≠ '}') (he : readEntry n (c :: s) = some (e, u))
    (hes : readEntries n u = some (es, rest)) :
    readValue (n + 1) ('{' :: t) = some (map ((e :: es).foldl putEntry []), rest) := by
  rw [readValue, skipBlanks_cons (c := '{') rfl]
  simp only [ht]
  split
  · rename_i heq
    exact absurd (List.cons.inj heq).1 hc
  · simp only [he, hes, Option.bind_eq_bind, Option.bind_some]
    rfl

theorem readEntry_colon {k : List CodePoint} {d : Json}
    (hk : readString n (skipBlanks s) = some (k, t)) (ht : skipBlanks t = ':' :: u)
    (hd : readValue n u = some (d, rest)) : readEntry (n + 1) s = some ((k, d), rest) := by
  rw [readEntry, hk]
  simp only [Option.bind_eq_bind, Option.bind_some, ht, hd]
  rfl

theorem readEntries_close (hs : skipBlanks s = '}' :: rest) :
    readEntries (n + 1) s = some ([], rest) := by
  rw [readEntries, hs]
  rfl

theorem readEntries_comma {e : List CodePoint × Json} {es : List (List CodePoint × Json)}
    (hs : skipBlanks s = ',' :: t) (he : readEntry n t = some (e, u))
    (hes : readEntries n u = some (es, rest)) :
    readEntries (n + 1) s = some (e :: es, rest) := by
  rw [readEntries, hs]
  simp only [he, hes, Option.bind_eq_bind, Option.bind_some]
  rfl

end Steps

/-! ## Lists and mappings -/

/-- What is written behind an item ends a number. -/
theorem endsNumber_itemsText (depth depth' : Nat) (ds : List Json) (rest : List Char) :
    EndsNumber (itemsText depth ds ++ (breakText depth' ++ rest)) := by
  cases ds with
  | nil =>
    rintro c ⟨⟩
    decide
  | cons d ds =>
    rintro c ⟨⟩
    decide

theorem endsNumber_entriesText (depth depth' : Nat) (es : List (List CodePoint × Json))
    (rest : List Char) : EndsNumber (entriesText depth es ++ (breakText depth' ++ rest)) := by
  cases es with
  | nil =>
    rintro c ⟨⟩
    decide
  | cons e es =>
    rintro c ⟨⟩
    decide

/-- The data is read as it was written at this depth, with its surrogates joined and with any text
behind it that does not go on with a number. -/
def ReadsBack (depth : Nat) (d : Json) : Prop :=
  ∀ n rest, (textAt depth d).length ≤ n → EndsNumber rest →
    readValue n (textAt depth d ++ rest) = some (d.joined, rest)

/-- No data is written as nothing, so reading has a step to take. -/
theorem Keyed.readsBack_of_step {depth : Nat} {d : Json} (hd : Keyed d)
    (h : ∀ n rest, (textAt depth d).length ≤ n + 1 → EndsNumber rest →
      readValue (n + 1) (textAt depth d ++ rest) = some (d.joined, rest)) : ReadsBack depth d := by
  intro n rest hn hrest
  obtain ⟨c, cs, htext, -⟩ := hd.exists_textAt_cons depth
  have hpos : 0 < (textAt depth d).length := by
    rw [htext]
    exact Nat.succ_pos _
  obtain ⟨k, rfl⟩ : ∃ k, n = k + 1 := ⟨n - 1, by omega⟩
  exact h k rest hn hrest

/-- Line breaks before a value are skipped. -/
theorem ReadsBack.after_break {depth : Nat} {d : Json} (h : ReadsBack depth d) (depth' : Nat)
    {n : Nat} {rest : List Char} (hn : (textAt depth d).length ≤ n) (hrest : EndsNumber rest) :
    readValue n (breakText depth' ++ (textAt depth d ++ rest)) = some (d.joined, rest) := by
  rw [readValue_congr (skipBlanks_breakText depth' _) n]
  exact h n rest hn hrest

/-- The rest of a list is read back if its items are. -/
theorem readItems_itemsText {ds : List Json} {depth : Nat} (hread : ∀ d ∈ ds, ReadsBack depth d)
    (depth' : Nat) {n : Nat} (hn : (itemsText depth ds).length < n) (rest : List Char) :
    readItems n (itemsText depth ds ++ (breakText depth' ++ ']' :: rest)) =
      some (joinedItems ds, rest) := by
  induction ds generalizing n with
  | nil =>
    obtain ⟨k, rfl⟩ : ∃ k, n = k + 1 := ⟨n - 1, by omega⟩
    exact readItems_close ((skipBlanks_breakText depth' _).trans (skipBlanks_cons (c := ']') rfl _))
  | cons d ds ih =>
    obtain ⟨hd, hds⟩ := List.forall_mem_cons.mp hread
    rw [itemsText] at hn ⊢
    simp only [List.length_append, List.length_cons] at hn
    obtain ⟨k, rfl⟩ : ∃ k, n = k + 1 := ⟨n - 1, by omega⟩
    have hitem := hd.after_break depth (show (textAt depth d).length ≤ k by omega)
      (endsNumber_itemsText depth depth' ds (']' :: rest))
    have hitems := ih hds (show (itemsText depth ds).length < k by omega)
    simp only [List.cons_append, List.append_assoc]
    exact readItems_comma (skipBlanks_cons (c := ',') rfl _) hitem hitems

theorem ReadsBack.readEntry {depth : Nat} {d : Json} (h : ReadsBack depth d) {k : List CodePoint}
    (hunpaired : Unpaired k) {s rest : List Char}
    (hs : skipBlanks s = stringText k ++ ':' :: ' ' :: (textAt depth d ++ rest)) {n : Nat}
    (hk : (stringText k).length ≤ n + 1) (hn : (textAt depth d).length ≤ n)
    (hrest : EndsNumber rest) : readEntry (n + 1) s = some ((k, d.joined), rest) := by
  have hblank : skipBlanks (' ' :: (textAt depth d ++ rest)) =
      skipBlanks (textAt depth d ++ rest) :=
    List.dropWhile_cons_of_pos rfl
  have hvalue : readValue n (' ' :: (textAt depth d ++ rest)) = some (d.joined, rest) := by
    rw [readValue_congr hblank n]
    exact h n rest hn hrest
  refine readEntry_colon ?_ (skipBlanks_cons (c := ':') rfl _) hvalue
  rw [hs, readString_stringText k hk, joined_of_unpaired hunpaired]

theorem skipBlanks_stringText (k : List CodePoint) (s : List Char) :
    skipBlanks (stringText k ++ s) = stringText k ++ s :=
  skipBlanks_cons (c := doubleQuote) rfl _

/-- The rest of a mapping is read back if its values are. -/
theorem readEntries_entriesText {es : List (List CodePoint × Json)} {depth : Nat}
    (hread : ∀ e ∈ es, ReadsBack depth e.2) (hunpaired : ∀ e ∈ es, Unpaired e.1) (depth' : Nat)
    {n : Nat} (hn : (entriesText depth es).length < n) (rest : List Char) :
    readEntries n (entriesText depth es ++ (breakText depth' ++ '}' :: rest)) =
      some (joinedEntries es, rest) := by
  induction es generalizing n with
  | nil =>
    obtain ⟨k, rfl⟩ : ∃ k, n = k + 1 := ⟨n - 1, by omega⟩
    exact readEntries_close
      ((skipBlanks_breakText depth' _).trans (skipBlanks_cons (c := '}') rfl _))
  | cons e es ih =>
    obtain ⟨hd, hes⟩ := List.forall_mem_cons.mp hread
    obtain ⟨hkey, hkeys⟩ := List.forall_mem_cons.mp hunpaired
    obtain ⟨key, d⟩ := e
    rw [entriesText] at hn ⊢
    simp only [List.length_append, List.length_cons, List.length_nil] at hn
    obtain ⟨k, rfl⟩ : ∃ k, n = k + 2 := ⟨n - 2, by omega⟩
    have hentry := hd.readEntry hkey
      ((skipBlanks_breakText depth _).trans (skipBlanks_stringText key _))
      (show (stringText key).length ≤ k + 1 by omega) (show (textAt depth d).length ≤ k by omega)
      (endsNumber_entriesText depth depth' es ('}' :: rest))
    have hentries := ih hes hkeys (show (entriesText depth es).length < k + 1 by omega)
    simp only [List.cons_append, List.append_assoc, List.nil_append]
    exact readEntries_comma (skipBlanks_cons (c := ',') rfl _) hentry hentries

/-- Entries with keys of their own are all kept, in order. -/
theorem foldl_putEntry {es fs : List (List CodePoint × Json)}
    (h : ((fs ++ es).map (·.1)).Nodup) : es.foldl putEntry fs = fs ++ es := by
  induction es generalizing fs with
  | nil => rw [List.foldl_nil, List.append_nil]
  | cons e es ih =>
    have hnew : fs.any (·.1 == e.1) = false := by
      rw [List.any_eq_false]
      intro f hf heq
      rw [List.map_append, List.nodup_append] at h
      exact h.2.2 f.1 (List.mem_map_of_mem hf) e.1 List.mem_cons_self (beq_iff_eq.mp heq)
    have hput : putEntry fs e = fs ++ [e] := by
      rw [putEntry, hnew]
      rfl
    rw [List.foldl_cons, hput, ih (by rwa [List.append_assoc]), List.append_assoc]
    rfl

theorem joinedItems_eq_map (ds : List Json) : joinedItems ds = ds.map joined := by
  induction ds with
  | nil => rw [joinedItems, List.map_nil]
  | cons d ds ih => rw [joinedItems, List.map_cons, ih]

theorem joinedEntries_eq_map (es : List (List CodePoint × Json)) :
    joinedEntries es = es.map fun e => (e.1, e.2.joined) := by
  induction es with
  | nil => rw [joinedEntries, List.map_nil]
  | cons e es ih => rw [joinedEntries, List.map_cons, ih]

theorem keys_joinedEntries (es : List (List CodePoint × Json)) :
    (joinedEntries es).map (·.1) = es.map (·.1) := by
  rw [joinedEntries_eq_map, List.map_map]
  rfl

theorem readsBack_int (depth : Nat) (i : Int) : ReadsBack depth (int i) := by
  refine (Keyed.int i).readsBack_of_step fun n rest _ hrest => ?_
  have hread := readScalar_int i n hrest
  obtain ⟨c, cs, hi, hc⟩ := exists_toString_cons i
  change readValue (n + 1) ((toString i).toList ++ rest) = some (int i, rest)
  rw [hi, List.cons_append] at hread ⊢
  rw [readValue_scalar hc.inked (hc.ne rfl (by decide)) (hc.ne rfl (by decide))]
  exact hread

theorem readsBack_str (depth : Nat) (s : List CodePoint) : ReadsBack depth (str s) := by
  refine (Keyed.str s).readsBack_of_step fun n rest hn _ => ?_
  have hread := readScalar_string s hn rest
  exact (readValue_scalar (c := doubleQuote) rfl (by decide) (by decide)).trans hread

/-- A list is read back if its items are. -/
theorem readsBack_list {depth : Nat} {items : List Json} (hkeyed : ∀ d ∈ items, Keyed d)
    (h : ∀ d ∈ items, ReadsBack (depth + 1) d) : ReadsBack depth (list items) := by
  refine (Keyed.list hkeyed).readsBack_of_step fun n rest hn _ => ?_
  cases items with
  | nil => rfl
  | cons d ds =>
    obtain ⟨hd, hds⟩ := List.forall_mem_cons.mp h
    rw [textAt] at hn ⊢
    simp only [List.length_append, List.length_cons, List.length_nil] at hn
    have hfirst := hd n _ (by omega) (endsNumber_itemsText (depth + 1) depth ds (']' :: rest))
    have hfurther := readItems_itemsText hds depth
      (show (itemsText (depth + 1) ds).length < n by omega) rest
    obtain ⟨c, cs, hcons, hc, hne⟩ :=
      (hkeyed d List.mem_cons_self).exists_textAt_cons (depth + 1)
    simp only [List.cons_append, List.append_assoc, List.nil_append]
    rw [hcons, List.cons_append] at hfirst ⊢
    exact readValue_list ((skipBlanks_breakText _ _).trans (skipBlanks_cons hc _)) hne hfirst
      hfurther

/-- A mapping with keys of its own is read back if its values are. -/
theorem readsBack_map {depth : Nat} {entries : List (List CodePoint × Json)}
    (hkeyed : Keyed (map entries)) (h : ∀ e ∈ entries, ReadsBack (depth + 1) e.2) :
    ReadsBack depth (map entries) := by
  refine hkeyed.readsBack_of_step fun n rest hn _ => ?_
  cases hkeyed with
  | map hkeys hunpaired =>
    cases entries with
    | nil => rfl
    | cons e es =>
      obtain ⟨hd, hes⟩ := List.forall_mem_cons.mp h
      obtain ⟨hkey, hfurtherKeys⟩ := List.forall_mem_cons.mp hunpaired
      obtain ⟨key, d⟩ := e
      rw [textAt] at hn ⊢
      simp only [List.length_append, List.length_cons, List.length_nil] at hn
      obtain ⟨k, rfl⟩ : ∃ k, n = k + 1 := ⟨n - 1, by omega⟩
      have hfirst := hd.readEntry hkey (skipBlanks_stringText key _)
        (show (stringText key).length ≤ k + 1 by omega)
        (show (textAt (depth + 1) d).length ≤ k by omega)
        (endsNumber_entriesText (depth + 1) depth es ('}' :: rest))
      have hfurther := readEntries_entriesText hes hfurtherKeys depth
        (show (entriesText (depth + 1) es).length < k + 1 by omega) rest
      -- no entry takes the place of another
      have hfold : (joinedEntries ((key, d) :: es)).foldl putEntry [] =
          joinedEntries ((key, d) :: es) :=
        foldl_putEntry (by rwa [List.nil_append, keys_joinedEntries])
      simp only [List.cons_append, List.append_assoc, List.nil_append]
      rw [joined, ← hfold]
      exact readValue_map ((skipBlanks_breakText _ _).trans (skipBlanks_stringText key _))
        (by decide) hfirst hfurther

/-- All data that has each key only once is read as it was written, with its surrogates joined. -/
theorem Keyed.readsBack {d : Json} (h : Keyed d) (depth : Nat) : ReadsBack depth d := by
  induction h generalizing depth with
  | null =>
    exact Keyed.null.readsBack_of_step fun n rest _ _ =>
      readValue_scalar rfl (by decide) (by decide)
  | bool b =>
    refine (Keyed.bool b).readsBack_of_step fun n rest _ _ => ?_
    cases b with
    | true => exact readValue_scalar rfl (by decide) (by decide)
    | false => exact readValue_scalar rfl (by decide) (by decide)
  | int i => exact readsBack_int depth i
  | str s => exact readsBack_str depth s
  | list hitems ih => exact readsBack_list hitems fun d hd => ih d hd (depth + 1)
  | map hkeys hunpaired hentries ih =>
    exact readsBack_map (.map hkeys hunpaired hentries) fun e he => ih e he (depth + 1)

/-! ## Whole texts -/

/-- What is written is read as the data with its surrogate pairs joined. -/
theorem Keyed.read?_textAt {d : Json} (h : Keyed d) (depth : Nat) :
    read? (String.ofList (textAt depth d)) = some d.joined := by
  have hread := h.readsBack depth (2 * (textAt depth d).length + 2) [] (by omega) (by rintro c ⟨⟩)
  rw [List.append_nil] at hread
  rw [read?, String.toList_ofList, hread]
  rfl

end Json

end ClassReference
