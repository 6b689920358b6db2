import ClassReference.Model
import ClassReference.Proofs.JsonReading
import Mathlib.Data.List.Nodup

/-!
# Proofs: The dump of a model

The dump of a model is plain ASCII text, and reading it gives the data of the model back. A dump has
the entries of its mappings in the order of their keys, so what is read is the same data up to that
order (`Json.Same`).

The texts of a model may stand for any code points (`Value.json`). A high surrogate and a low one
behind it are dumped as the character that they stand for together, so the data comes back exactly
only if no text has such a pair (`Model.toJson_faithful`). Texts of characters have none.
-/

namespace ClassReference

namespace Json

open Text

/-! ## The characters of a dump -/

/-- A line break, a blank or a visible ASCII character. -/
def Plain (c : Char) : Prop :=
  c = '\n' ∨ 0x20 ≤ c.toNat ∧ c.toNat < 0x7F

instance : DecidablePred Plain :=
  fun _ => inferInstanceAs (Decidable (_ ∨ _))

/-- A text of plain ASCII characters. -/
def PlainText (s : List Char) : Prop :=
  ∀ c ∈ s, Plain c

theorem PlainText.of_all {s : List Char} (h : s.all (fun c => decide (Plain c)) = true) :
    PlainText s :=
  fun c hc => of_decide_eq_true (List.all_eq_true.mp h c hc)

theorem PlainText.append {s t : List Char} (hs : PlainText s) (ht : PlainText t) :
    PlainText (s ++ t) :=
  List.forall_mem_append.mpr ⟨hs, ht⟩

theorem PlainText.cons {c : Char} {s : List Char} (hc : Plain c) (hs : PlainText s) :
    PlainText (c :: s) :=
  List.forall_mem_cons.mpr ⟨hc, hs⟩

theorem plainText_hexDigits (width n : Nat) : PlainText (hexDigits width n) := by
  have hdigit : ∀ m < 16, Plain (hexDigit m) := by decide
  induction width generalizing n with
  | zero => exact .of_all rfl
  | succ width ih =>
    rw [hexDigits]
    exact (ih _).append (.cons (hdigit _ (Nat.mod_lt n (by omega))) (.of_all rfl))

theorem plainText_unitEscape (n : Nat) : PlainText (unitEscape n) :=
  .cons (by decide) (.cons (by decide) (plainText_hexDigits 4 n))

theorem plainText_codeText (c : CodePoint) : PlainText (codeText c) := by
  have hform := codeForm c
  generalize codeText c = w at hform ⊢
  cases hform with
  | letter _ hplain => exact .cons (by decide) (.cons (Or.inr hplain) (.of_all rfl))
  | plain _ _ hplain => exact .cons (Or.inr hplain) (.of_all rfl)
  | unit => exact plainText_unitEscape _
  | pair => exact (plainText_unitEscape _).append (plainText_unitEscape _)

theorem plainText_stringText (s : List CodePoint) : PlainText (stringText s) := by
  have hcodes : PlainText (s.flatMap codeText) := by
    intro d hd
    obtain ⟨c, -, hd⟩ := List.mem_flatMap.mp hd
    exact plainText_codeText c d hd
  exact (hcodes.cons (by decide)).append (.of_all rfl)

theorem plainText_breakText (depth : Nat) : PlainText (breakText depth) := by
  refine .cons (Or.inl rfl) fun c hc => ?_
  rw [List.eq_of_mem_replicate hc]
  decide

theorem plainText_toString (i : Int) : PlainText (toString i).toList := by
  have hdigits : ∀ n, PlainText (Nat.toDigits 10 n) := by
    intro n c hc
    have hdigit := isDigit_of_mem_toDigits hc
    simp only [Char.isDigit, Bool.and_eq_true, decide_eq_true_eq, ge_iff_le,
      UInt32.le_iff_toNat_le] at hdigit
    have hlow : 48 ≤ c.toNat := hdigit.1
    have hhigh : c.toNat ≤ 57 := hdigit.2
    exact Or.inr ⟨by omega, by omega⟩
  rw [toList_toString]
  split
  · exact hdigits _
  · exact (hdigits _).cons (by decide)

theorem plainText_itemsText {depth : Nat} {ds : List Json}
    (h : ∀ d ∈ ds, PlainText (textAt depth d)) : PlainText (itemsText depth ds) := by
  induction ds with
  | nil => exact .of_all rfl
  | cons d ds ih =>
    obtain ⟨hd, hds⟩ := List.forall_mem_cons.mp h
    have hstart := (plainText_breakText depth).cons (c := ',') (by decide)
    exact (hstart.append hd).append (ih hds)

theorem plainText_entriesText {depth : Nat} {es : List (List CodePoint × Json)}
    (h : ∀ e ∈ es, PlainText (textAt depth e.2)) : PlainText (entriesText depth es) := by
  induction es with
  | nil => exact .of_all rfl
  | cons e es ih =>
    obtain ⟨hd, hes⟩ := List.forall_mem_cons.mp h
    have hstart := (plainText_breakText depth).cons (c := ',') (by decide)
    have hkey := (hstart.append (plainText_stringText e.1)).append (t := [':', ' ']) (.of_all rfl)
    exact (hkey.append hd).append (ih hes)

theorem Keyed.plainText {d : Json} (h : Keyed d) (depth : Nat) : PlainText (textAt depth d) := by
  induction h generalizing depth with
  | null =>
    rw [textAt]
    exact .of_all rfl
  | bool b => cases b <;> rw [textAt] <;> exact .of_all rfl
  | int i => exact plainText_toString i
  | str s => exact plainText_stringText s
  | @list items hitems ih =>
    cases items with
    | nil =>
      rw [textAt]
      exact .of_all rfl
    | cons d ds =>
      obtain ⟨hd, hds⟩ := List.forall_mem_cons.mp ih
      have hstart := (plainText_breakText (depth + 1)).cons (c := '[') (by decide)
      have hfurther := plainText_itemsText fun w hw => hds w hw (depth + 1)
      have hstop := (plainText_breakText depth).append (t := [']']) (.of_all rfl)
      rw [textAt, List.append_assoc _ (breakText depth)]
      exact ((hstart.append (hd _)).append hfurther).append hstop
  | @map entries hkeys hunpaired hentries ih =>
    cases entries with
    | nil =>
      rw [textAt]
      exact .of_all rfl
    | cons e es =>
      obtain ⟨hd, hes⟩ := List.forall_mem_cons.mp ih
      have hstart := (plainText_breakText (depth + 1)).cons (c := '{') (by decide)
      have hkey := (hstart.append (plainText_stringText e.1)).append (t := [':', ' ']) (.of_all rfl)
      have hfurther := plainText_entriesText fun f hf => hes f hf (depth + 1)
      have hstop := (plainText_breakText depth).append (t := ['}']) (.of_all rfl)
      rw [textAt, List.append_assoc _ (breakText depth)]
      exact ((hkey.append (hd _)).append hfurther).append hstop

/-! ## The same data -/

/-- The value of a key. -/
def lookup (key : List CodePoint) (entries : List (List CodePoint × Json)) : Option Json :=
  (entries.find? (·.1 == key)).map (·.2)

/-- The data is the same. Lists are compared item by item, mappings by what they give for each
key. -/
inductive Same : Json → Json → Prop where
  | null : Same null null
  | bool (b : Bool) : Same (bool b) (bool b)
  | int (i : Int) : Same (int i) (int i)
  | str (s : List CodePoint) : Same (str s) (str s)
  | list {ds ds' : List Json} (hlength : ds.length = ds'.length)
      (h : ∀ (i : Nat) d d', ds[i]? = some d → ds'[i]? = some d' → Same d d') :
      Same (list ds) (list ds')
  | map {es es' : List (List CodePoint × Json)}
      (hkeys : ∀ k, lookup k es = none ↔ lookup k es' = none)
      (h : ∀ k d d', lookup k es = some d → lookup k es' = some d' → Same d d') :
      Same (map es) (map es')

theorem Same.of_common {d e f : Json} (he : Same d e) (hf : Same d f) : Same e f := by
  induction he generalizing f with
  | null | bool | int | str => exact hf
  | @list ds es hlength h ih =>
    cases hf with
    | @list _ fs hlength' h' =>
      refine Same.list (hlength.symm.trans hlength') fun i e f he hf => ?_
      have hi : i < ds.length := by
        rw [hlength]
        exact (List.getElem?_eq_some_iff.mp he).1
      have hd : ds[i]? = some ds[i] := List.getElem?_eq_getElem hi
      exact ih i _ e hd he (h' i _ f hd hf)
  | @map ds es hkeys h ih =>
    cases hf with
    | @map _ fs hkeys' h' =>
      refine Same.map (fun k => (hkeys k).symm.trans (hkeys' k)) fun k e f he hf => ?_
      cases hd : lookup k ds with
      | none =>
        rw [(hkeys k).mp hd] at he
        cases he
      | some d => exact ih k d e hd he (h' k d f hd hf)

theorem lookup_eq_some_iff {es : List (List CodePoint × Json)} (hkeys : (es.map (·.1)).Nodup)
    {k : List CodePoint} {d : Json} : lookup k es = some d ↔ (k, d) ∈ es := by
  induction es with
  | nil => simp [lookup]
  | cons e es ih =>
    rw [List.map_cons, List.nodup_cons] at hkeys
    obtain ⟨hnew, hkeys⟩ := hkeys
    by_cases hk : e.1 = k
    · have hlookup : lookup k (e :: es) = some e.2 := by
        rw [lookup, List.find?_cons_of_pos (by simpa using hk)]
        rfl
      rw [hlookup, Option.some_inj, List.mem_cons]
      constructor
      · rintro rfl
        exact Or.inl (Prod.ext hk.symm rfl)
      · rintro (heq | hmem)
        · rw [← heq]
        · exact absurd (hk ▸ List.mem_map_of_mem (f := (·.1)) hmem) hnew
    · have hlookup : lookup k (e :: es) = lookup k es := by
        rw [lookup, List.find?_cons_of_neg (by simpa using hk)]
        rfl
      rw [hlookup, ih hkeys, List.mem_cons, or_iff_right]
      rintro rfl
      exact hk rfl

/-! ## Ordered data -/

theorem orderedItems_eq_map (ds : List Json) : orderedItems ds = ds.map ordered := by
  induction ds with
  | nil => rw [orderedItems, List.map_nil]
  | cons d ds ih => rw [orderedItems, List.map_cons, ih]

theorem orderedEntries_eq_map (es : List (List CodePoint × Json)) :
    orderedEntries es = es.map fun e => (e.1, e.2.ordered) := by
  induction es with
  | nil => rw [orderedEntries, List.map_nil]
  | cons e es ih => rw [orderedEntries, List.map_cons, ih]

/-- The keys of an ordered mapping are those it had. -/
theorem nodup_keys_ordered {es : List (List CodePoint × Json)} (hkeys : (es.map (·.1)).Nodup) :
    (((orderedEntries es).mergeSort fun a b => Text.isAtMost a.1 b.1).map (·.1)).Nodup := by
  have hperm := (List.mergeSort_perm (orderedEntries es) fun a b => Text.isAtMost a.1 b.1).map (·.1)
  rw [hperm.nodup_iff, orderedEntries_eq_map, List.map_map]
  exact hkeys

theorem lookup_ordered {es : List (List CodePoint × Json)} (hkeys : (es.map (·.1)).Nodup)
    (k : List CodePoint) :
    lookup k ((orderedEntries es).mergeSort fun a b => Text.isAtMost a.1 b.1) =
      (lookup k es).map ordered := by
  refine Option.ext fun d' => ?_
  rw [lookup_eq_some_iff (nodup_keys_ordered hkeys), List.mem_mergeSort, orderedEntries_eq_map,
    List.mem_map, Option.map_eq_some_iff]
  constructor
  · rintro ⟨e, he, heq⟩
    obtain ⟨rfl, rfl⟩ := Prod.mk.inj heq
    exact ⟨e.2, (lookup_eq_some_iff hkeys).mpr he, rfl⟩
  · rintro ⟨d, hd, rfl⟩
    exact ⟨(k, d), (lookup_eq_some_iff hkeys).mp hd, rfl⟩

theorem Keyed.ordered {d : Json} (h : Keyed d) : Keyed d.ordered := by
  induction h with
  | null | bool | int | str => constructor
  | list _ ih =>
    rw [Json.ordered, orderedItems_eq_map]
    exact Keyed.list (List.forall_mem_map.mpr ih)
  | @map entries hkeys hunpaired _ ih =>
    have hentry : ∀ e ∈ (orderedEntries entries).mergeSort (fun a b => Text.isAtMost a.1 b.1),
        Unpaired e.1 ∧ Keyed e.2 := by
      intro e he
      rw [List.mem_mergeSort, orderedEntries_eq_map] at he
      obtain ⟨f, hf, rfl⟩ := List.mem_map.mp he
      exact ⟨hunpaired f hf, ih f hf⟩
    exact Keyed.map (nodup_keys_ordered hkeys) (fun e he => (hentry e he).1)
      fun e he => (hentry e he).2

/-- The order of the entries does not change the data. -/
theorem Keyed.same_ordered {d : Json} (h : Keyed d) : Same d.ordered d := by
  induction h with
  | null | bool | int | str => constructor
  | list _ ih =>
    rw [Json.ordered, orderedItems_eq_map]
    refine Same.list (List.length_map _) fun i d' d hd' hd => ?_
    rw [List.getElem?_map, hd] at hd'
    obtain rfl := Option.some.inj hd'
    exact ih d (List.mem_of_getElem? hd)
  | map hkeys _ _ ih =>
    rw [Json.ordered]
    refine Same.map (fun k => ?_) fun k d' d hd' hd => ?_
    · rw [lookup_ordered hkeys, Option.map_eq_none_iff]
    · rw [lookup_ordered hkeys, hd] at hd'
      obtain rfl := Option.some.inj hd'
      exact ih (k, d) ((lookup_eq_some_iff hkeys).mp hd)

/-! ## Joined surrogates -/

theorem Keyed.joined {d : Json} (h : Keyed d) : Keyed d.joined := by
  induction h with
  | null | bool | int | str => constructor
  | list _ ih =>
    rw [Json.joined, joinedItems_eq_map]
    exact Keyed.list (List.forall_mem_map.mpr ih)
  | @map entries hkeys hunpaired _ ih =>
    rw [← keys_joinedEntries] at hkeys
    refine Keyed.map hkeys ?_ ?_
    · rw [joinedEntries_eq_map]
      exact List.forall_mem_map.mpr hunpaired
    · rw [joinedEntries_eq_map]
      exact List.forall_mem_map.mpr ih

/-- It does not matter whether entries are ordered or surrogates are joined first. -/
theorem Keyed.ordered_joined {d : Json} (h : Keyed d) : d.joined.ordered = d.ordered.joined := by
  induction h with
  | null | bool | int | str => rfl
  | list _ ih =>
    simp only [Json.joined, Json.ordered, joinedItems_eq_map, orderedItems_eq_map, List.map_map]
    exact congrArg Json.list (List.map_congr_left ih)
  | @map entries _ _ _ ih =>
    let le (a b : List CodePoint × Json) : Bool := Text.isAtMost a.1 b.1
    -- joining leaves the keys as they are, and these make the order
    have hsort : ((entries.map fun e => (e.1, e.2.ordered)).mergeSort le).map
          (fun e => (e.1, e.2.joined)) =
        ((entries.map fun e => (e.1, e.2.ordered)).map fun e => (e.1, e.2.joined)).mergeSort le :=
      List.map_mergeSort fun _ _ _ _ => rfl
    simp only [Json.joined, Json.ordered, joinedEntries_eq_map, orderedEntries_eq_map]
    rw [hsort, List.map_map, List.map_map]
    refine congrArg (fun es => Json.map (es.mergeSort le)) (List.map_congr_left fun e he => ?_)
    exact Prod.ext rfl (ih e he)

/-- A text is written like the one with its surrogates joined. -/
theorem stringText_joined (s : List CodePoint) : stringText (Text.joined s) = stringText s := by
  have hcodes : (Text.joined s).flatMap codeText = s.flatMap codeText := by
    fun_induction Text.joined s with
    | case1 => rfl
    | case2 => rfl
    | case3 high low cs hpair ih =>
      rw [Bool.and_eq_true] at hpair
      rw [List.flatMap_cons, List.flatMap_cons, List.flatMap_cons, ih,
        codeText_join hpair.1 hpair.2, List.append_assoc]
    | case4 high low cs hpair ih => rw [List.flatMap_cons, List.flatMap_cons, ih]
  rw [stringText, stringText, hcodes]

/-- Data is written like the data with its surrogates joined. -/
theorem Keyed.textAt_joined {d : Json} (h : Keyed d) (depth : Nat) :
    textAt depth d.joined = textAt depth d := by
  induction h generalizing depth with
  | null | bool | int => rfl
  | str s => exact stringText_joined s
  | @list items _ ih =>
    have hitems : ∀ ds ⊆ items, itemsText (depth + 1) (joinedItems ds) =
        itemsText (depth + 1) ds := by
      intro ds hds
      induction ds with
      | nil => rfl
      | cons d ds ihds =>
        obtain ⟨hd, hds⟩ := List.cons_subset.mp hds
        rw [joinedItems, itemsText, itemsText, ih d hd, ihds hds]
    cases items with
    | nil => rfl
    | cons d ds =>
      rw [Json.joined, joinedItems, textAt, textAt, ih d List.mem_cons_self,
        hitems ds (List.subset_cons_self d ds)]
  | @map entries _ _ _ ih =>
    have hentries : ∀ es ⊆ entries,
        entriesText (depth + 1) (joinedEntries es) = entriesText (depth + 1) es := by
      intro es hes
      induction es with
      | nil => rfl
      | cons e es ihes =>
        obtain ⟨he, hes⟩ := List.cons_subset.mp hes
        rw [joinedEntries, entriesText, entriesText, ih e he, ihes hes]
    cases entries with
    | nil => rfl
    | cons e es =>
      rw [Json.joined, joinedEntries, textAt, textAt, ih e List.mem_cons_self,
        hentries es (List.subset_cons_self e es)]

theorem Keyed.write_joined {d : Json} (h : Keyed d) : d.joined.write = d.write := by
  rw [write, write, h.ordered_joined, h.ordered.textAt_joined]

/-- What is read of written data is the data with its surrogates joined. -/
theorem Keyed.read?_write {d : Json} (h : Keyed d) : read? d.write = some d.joined.ordered := by
  rw [write, h.ordered.read?_textAt, h.ordered_joined]

/-- No text in the data has a high surrogate right before a low one. -/
inductive Unpaired : Json → Prop where
  | null : Unpaired null
  | bool (b : Bool) : Unpaired (bool b)
  | int (i : Int) : Unpaired (int i)
  | str {s : List CodePoint} (h : Text.Unpaired s) : Unpaired (str s)
  | list {items : List Json} (h : ∀ d ∈ items, Unpaired d) : Unpaired (list items)
  | map {entries : List (List CodePoint × Json)} (h : ∀ e ∈ entries, Unpaired e.2) :
      Unpaired (map entries)

theorem Unpaired.joined_eq {d : Json} (h : Unpaired d) : d.joined = d := by
  induction h with
  | null | bool | int => rfl
  | str h => exact congrArg Json.str (joined_of_unpaired h)
  | list _ ih =>
    rw [Json.joined, joinedItems_eq_map]
    exact congrArg Json.list ((List.map_congr_left ih).trans (List.map_id _))
  | map _ ih =>
    rw [Json.joined, joinedEntries_eq_map]
    refine congrArg Json.map ((List.map_congr_left fun e he => ?_).trans (List.map_id _))
    exact Prod.ext rfl (ih e he)

/-- Data is changed by joining exactly if it has surrogates to join. -/
theorem Keyed.same_joined_iff {d : Json} (h : Keyed d) : Same d.joined d ↔ Unpaired d := by
  refine ⟨fun hsame => ?_, fun hunpaired => ?_⟩
  · induction h with
    | null | bool | int => constructor
    | str s =>
      rw [Json.joined] at hsame
      generalize hjoined : Text.joined s = t at hsame
      cases hsame
      exact .str (joined_eq_self_iff.mp hjoined)
    | list _ ih =>
      rw [Json.joined, joinedItems_eq_map] at hsame
      cases hsame with
      | list hlength hitems =>
        refine .list fun d hd => ih d hd ?_
        obtain ⟨i, hi⟩ := List.mem_iff_getElem?.mp hd
        exact hitems i _ d (by rw [List.getElem?_map, hi]; rfl) hi
    | @map entries hkeys _ _ ih =>
      rw [Json.joined] at hsame
      cases hsame with
      | map _ hentries =>
        refine .map fun e he => ih e he (hentries e.1 _ e.2 ?_ ((lookup_eq_some_iff hkeys).mpr he))
        have hkeys' : ((joinedEntries entries).map (·.1)).Nodup := by rwa [keys_joinedEntries]
        rw [lookup_eq_some_iff hkeys', joinedEntries_eq_map]
        exact List.mem_map_of_mem (f := fun e => (e.1, e.2.joined)) he
  · have hsame := h.same_ordered
    rw [hunpaired.joined_eq]
    exact hsame.of_common hsame

end Json

/-! ## Models as data -/

namespace Value

/-- Each mapping in the value has each key only once, and all numbers are whole. -/
inductive Keyed : Value → Prop where
  | null : Keyed null
  | bool (b : Bool) : Keyed (bool b)
  | int (i : Int) : Keyed (int i)
  | str (s : String) : Keyed (str s)
  | list {items : List Value} (h : ∀ v ∈ items, Keyed v) : Keyed (list items)
  | map {entries : List (String × Value)} (hkeys : (entries.map (·.1)).Nodup)
      (h : ∀ e ∈ entries, Keyed e.2) : Keyed (map entries)

attribute [simp] Keyed.null Keyed.bool Keyed.int Keyed.str

@[simp] theorem keyed_list_iff {items : List Value} : Keyed (list items) ↔ ∀ v ∈ items, Keyed v :=
  ⟨fun h => by cases h; assumption, Keyed.list⟩

@[simp] theorem keyed_map_iff {entries : List (String × Value)} :
    Keyed (map entries) ↔ (entries.map (·.1)).Nodup ∧ ∀ e ∈ entries, Keyed e.2 :=
  ⟨fun h => by cases h; exact ⟨‹_›, ‹_›⟩, fun h => Keyed.map h.1 h.2⟩

variable {spell : String → List CodePoint}

theorem jsonItems_eq_map (vs : List Value) : jsonItems spell vs = vs.map (json spell) := by
  induction vs with
  | nil => rw [jsonItems, List.map_nil]
  | cons v vs ih => rw [jsonItems, List.map_cons, ih]

theorem jsonEntries_eq_map (es : List (String × Value)) :
    jsonEntries spell es = es.map fun e => (Text.codes e.1, e.2.json spell) := by
  induction es with
  | nil => rw [jsonEntries, List.map_nil]
  | cons e es ih => rw [jsonEntries, List.map_cons, ih]

theorem codes_injective : Function.Injective Text.codes := by
  have hchar : Function.Injective CodePoint.ofChar := by
    intro c d h
    have hnat : c.toNat = d.toNat := congrArg (fun n : CodePoint => n.val) h
    exact Char.toNat_inj.mp hnat
  exact fun s t h => String.toList_inj.mp (List.map_injective_iff.mpr hchar h)

theorem Keyed.json {v : Value} (h : Keyed v) (spell : String → List CodePoint) :
    (v.json spell).Keyed := by
  induction h with
  | null | bool | int | str => constructor
  | list _ ih =>
    rw [Value.json, jsonItems_eq_map]
    exact .list (List.forall_mem_map.mpr ih)
  | map hkeys _ ih =>
    rw [Value.json, jsonEntries_eq_map]
    refine .map ?_ ?_ (List.forall_mem_map.mpr ih)
    · have hcodes := List.Nodup.map codes_injective hkeys
      rwa [List.map_map] at hcodes ⊢
    · exact List.forall_mem_map.mpr fun e _ => Text.unpaired_codes e.1

/-- Surrogates may as well be joined in the spelling of the texts. -/
theorem Keyed.joined_json {v : Value} (h : Keyed v) (spell : String → List CodePoint) :
    (v.json spell).joined = v.json (Text.joined ∘ spell) := by
  induction h with
  | null | bool | int | str => rfl
  | list _ ih =>
    rw [Value.json, Value.json, Json.joined, Json.joinedItems_eq_map, jsonItems_eq_map,
      jsonItems_eq_map, List.map_map]
    exact congrArg Json.list (List.map_congr_left ih)
  | map _ _ ih =>
    rw [Value.json, Value.json, Json.joined, Json.joinedEntries_eq_map, jsonEntries_eq_map,
      jsonEntries_eq_map, List.map_map]
    exact congrArg Json.map (List.map_congr_left fun e he => Prod.ext rfl (ih e he))

theorem Keyed.unpaired_json {v : Value} (h : Keyed v) (hspell : ∀ s, Text.Unpaired (spell s)) :
    (v.json spell).Unpaired := by
  induction h with
  | null | bool | int => constructor
  | str s => exact .str (hspell s)
  | list _ ih =>
    rw [Value.json, jsonItems_eq_map]
    exact .list (List.forall_mem_map.mpr ih)
  | map _ _ ih =>
    rw [Value.json, jsonEntries_eq_map]
    exact .map (List.forall_mem_map.mpr ih)

@[simp] theorem keyed_ofOption (s : Option String) : (ofOption s).Keyed := by
  cases s <;> constructor

end Value

@[simp] theorem Description.keyed_toValue (d : Description) : d.toValue.Keyed := by
  simp [toValue]

@[simp] theorem keyed_optionalDescription (d : Option Description) :
    (optionalDescription d).Keyed := by
  cases d with
  | none => constructor
  | some d => exact d.keyed_toValue

@[simp] theorem keyed_paramsValue (ps : List Param) : (paramsValue ps).Keyed := by
  simp [paramsValue, Param.toValue]

@[simp] theorem ClassName.keyed_toValue (n : ClassName) : n.toValue.Keyed := by
  simp [toValue]

/-- A detail adds keys of its own to those that all members have. -/
theorem Member.keyed_toValue {α : Type} [MemberDetail α] (m : Member α)
    (h : (Value.map (MemberDetail.entries m.detail)).Keyed)
    (hown : ∀ e ∈ MemberDetail.entries m.detail,
      e.1 ∉ ["name", "class_name", "short_class_name", "description", "hide", "is_static"]) :
    m.toValue.Keyed := by
  obtain ⟨hkeys, hvalues⟩ := Value.keyed_map_iff.mp h
  refine Value.Keyed.map ?_ ?_
  · rw [entries, List.map_append, List.nodup_append]
    refine ⟨by simp, hkeys, ?_⟩
    rintro k hk _ hk' rfl
    obtain ⟨e, he, rfl⟩ := List.mem_map.mp hk'
    exact hown e he hk
  · rw [entries]
    exact List.forall_mem_append.mpr ⟨by simp, hvalues⟩

@[simp] theorem ClassEntry.keyed_toValue (e : ClassEntry) : e.toValue.Keyed := by
  have hcfgs : ∀ m : Cfg, m.toValue.Keyed :=
    fun m => m.keyed_toValue (by simp [MemberDetail.entries]) (by simp [MemberDetail.entries])
  have hproperties : ∀ m : Property, m.toValue.Keyed :=
    fun m => m.keyed_toValue (by simp [MemberDetail.entries]) (by simp [MemberDetail.entries])
  have hmethods : ∀ m : Method, m.toValue.Keyed :=
    fun m => m.keyed_toValue (by simp [MemberDetail.entries]) (by simp [MemberDetail.entries])
  have hevents : ∀ m : Event, m.toValue.Keyed :=
    fun m => m.keyed_toValue (by simp [MemberDetail.entries]) (by simp [MemberDetail.entries])
  simp [toValue, entries, hcfgs, hproperties, hmethods, hevents]

mutual

theorem Package.keyed_toValue : ∀ p : Package, p.toValue.Keyed
  | ⟨name, fullName, packages, classes⟩ => by
    have hpackages := keyed_toValues packages
    simpa [toValue] using hpackages

theorem Package.keyed_toValues : ∀ ps : List Package, ∀ v ∈ toValues ps, v.Keyed
  | [] => by simp [toValues]
  | p :: ps => List.forall_mem_cons.mpr ⟨keyed_toValue p, keyed_toValues ps⟩

end

theorem Model.keyed_toValue (m : Model) : m.toValue.Keyed := by
  simp [toValue, m.tree.keyed_toValue]

namespace Model

/-- What is read of a dump is the data of the model, exactly if that has no surrogates to join. -/
theorem exists_read?_toJson (m : Model) (spell : String → List CodePoint) :
    ∃ d, Json.read? (m.toJson spell) = some d ∧
      (d.Same (m.toValue.json spell) ↔ (m.toValue.json spell).Unpaired) := by
  have hkeyed := m.keyed_toValue.json spell
  have hsame := hkeyed.joined.same_ordered
  refine ⟨_, hkeyed.read?_write, fun h => hkeyed.same_joined_iff.mp (hsame.of_common h), ?_⟩
  intro hunpaired
  rw [hunpaired.joined_eq]
  exact hkeyed.same_ordered

/-- A dump is plain text. It can be read, and what is read is the data of the model exactly if no
text of the model has a high surrogate right before a low one. Only the same data has the same dump
among models without such texts. -/
theorem toJson_faithful (m : Model) (spell : String → List CodePoint) :
    Json.PlainText (m.toJson spell).toList ∧
      (∃ d, Json.read? (m.toJson spell) = some d ∧
        (d.Same (m.toValue.json spell) ↔ (m.toValue.json spell).Unpaired)) ∧
      ∀ (m' : Model) (spell' : String → List CodePoint), (m.toValue.json spell).Unpaired →
        (m'.toValue.json spell').Unpaired → m'.toJson spell' = m.toJson spell →
        (m'.toValue.json spell').Same (m.toValue.json spell) := by
  refine ⟨?_, m.exists_read?_toJson spell, fun m' spell' hunpaired hunpaired' hdump => ?_⟩
  · rw [toJson, Value.toJson, Json.write, String.toList_ofList]
    exact (m.keyed_toValue.json spell).ordered.plainText 0
  · obtain ⟨d, hread, hsame⟩ := m.exists_read?_toJson spell
    obtain ⟨d', hread', hsame'⟩ := m'.exists_read?_toJson spell'
    obtain rfl : d' = d := by
      rw [hdump, hread] at hread'
      exact (Option.some.inj hread').symm
    exact (hsame'.mpr hunpaired').of_common (hsame.mpr hunpaired)

/-- A model with one class, whose description is a text of its own. -/
def described : Model where
  classes := [{ name := ClassName.ofFull "A", definedIn := "a.js", description := { long := "x" } }]

/-- The description stands for the given code points, and all other texts for themselves. -/
def describedBy (t : List CodePoint) (s : String) : List CodePoint :=
  if s = "x" then t else Text.codes s

/-- Surrogates that are no pair come back as they are. -/
theorem loneSurrogates_dumped :
    (described.toValue.json (describedBy [0xDE00, 0xD83D])).Unpaired ∧
      ∃ d, Json.read? (described.toJson (describedBy [0xDE00, 0xD83D])) = some d ∧
        d.Same (described.toValue.json (describedBy [0xDE00, 0xD83D])) := by
  have hspell : ∀ s, Text.Unpaired (describedBy [0xDE00, 0xD83D] s) := by
    intro s
    unfold describedBy
    split
    · exact List.isChain_cons_cons.mpr ⟨by decide, .singleton _⟩
    · exact Text.unpaired_codes s
  have hunpaired := described.keyed_toValue.unpaired_json hspell
  obtain ⟨-, ⟨d, hread, hsame⟩, -⟩ := toJson_faithful described (describedBy [0xDE00, 0xD83D])
  exact ⟨hunpaired, d, hread, hsame.mpr hunpaired⟩

/-- A pair of surrogates and the character that it stands for are different data with the same
dump. -/
theorem pair_dumped_as_character :
    described.toJson (describedBy [0xD83D, 0xDE00]) = described.toJson (describedBy [0x1F600]) ∧
      ¬ (described.toValue.json (describedBy [0xD83D, 0xDE00])).Same
        (described.toValue.json (describedBy [0x1F600])) := by
  have hspell : Text.joined ∘ describedBy [0xD83D, 0xDE00] = describedBy [0x1F600] := by
    funext s
    simp only [Function.comp_apply, describedBy]
    split
    · decide
    · exact Text.joined_of_unpaired (Text.unpaired_codes s)
  have hkeyed := described.keyed_toValue
  have hjoined := hkeyed.joined_json (describedBy [0xD83D, 0xDE00])
  rw [hspell] at hjoined
  refine ⟨?_, fun hsame => ?_⟩
  · rw [toJson, Value.toJson, ← (hkeyed.json _).write_joined, hjoined]
    rfl
  · have hrefl := (hkeyed.json (describedBy [0xD83D, 0xDE00])).same_ordered
    rw [← hjoined] at hsame
    have hunpaired := (hkeyed.json _).same_joined_iff.mp (hsame.of_common (hrefl.of_common hrefl))
    have heq := hjoined.symm.trans hunpaired.joined_eq
    simp [toValue, described, ClassEntry.toValue, ClassEntry.entries, Description.toValue,
      Value.json, Value.jsonItems, Value.jsonEntries, describedBy] at heq

end Model

end ClassReference
