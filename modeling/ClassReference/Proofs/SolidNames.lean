import ClassReference.Proofs.CollectionOrder
import ClassReference.Proofs.Definitions
import ClassReference.Proofs.InheritedMembers
import ClassReference.Proofs.TextParts

/-!
# Proofs: names without blanks

A class is named by its tag, a member by a tag or by the code behind its comment. A tag is read word
by word (`Tag.solid_names`), and the scanner keeps only characters of words (`Scanner.Wordy.feed`).
So the classes and members of a model have no blanks in their names (`Collection.solid_className`,
`Collection.solid_memberName`).
-/

namespace ClassReference

open Text

/-! ## Words of tags -/

theorem Text.Solid.of_subset {a b : List Char} (h : Solid b) (hab : a ⊆ b) : Solid a :=
  fun c hc => h c (hab hc)

/-- A word has no blanks in it. -/
theorem Text.solid_takeWord (s : List Char) : Solid (takeWord s) := by
  intro c hc
  simpa using List.mem_takeWhile_imp hc

theorem Text.cutFirst_fst_subset (d : Char) (s : List Char) : (cutFirst d s).1 ⊆ s := by
  unfold cutFirst
  split
  · exact List.Subset.refl s
  · exact (List.takeWhile_prefix _).subset

/-- What stands behind a character is a part of the text. -/
theorem Text.cutFirst_snd_subset {d : Char} {s before after : List Char}
    (h : cutFirst d s = (before, some after)) : after ⊆ s := by
  unfold cutFirst at h
  split at h
  · simp at h
  · rename_i c rest hdrop
    obtain ⟨-, rfl⟩ : _ ∧ rest = after := by simpa using h
    intro x hx
    refine (List.dropWhile_suffix (· != d)).subset ?_
    rw [hdrop]
    exact List.mem_cons_of_mem c hx

/-- What stands in brackets is a part of the name. -/
theorem Item.readBracketed_subset {name inner : List Char} (h : readBracketed name = some inner) :
    inner ⊆ name := by
  unfold readBracketed at h
  split at h
  · rename_i rest
    obtain ⟨-, rfl⟩ : _ ∧ rest.dropLast = inner := by simpa using h
    exact List.Subset.trans (List.dropLast_subset rest) (List.subset_cons_self _ rest)
  · cases h

theorem Item.readQuestioned_subset {name inner : List Char} (h : readQuestioned name = some inner) :
    inner ⊆ name := by
  unfold readQuestioned at h
  obtain ⟨-, rfl⟩ : _ ∧ name.dropLast = inner := by simpa using h
  exact List.dropLast_subset name

/-- The name of an item is a part of a word, whatever marks it as optional. -/
theorem Item.solid_name (text : List Char) : Solid (Item.read text).name.toList := by
  have hgetD : ∀ {found : Option (List Char)} {name : List Char}, Solid name →
      (∀ inner, found = some inner → inner ⊆ name) →
      Solid (found.getD name) := by
    intro found name hname hfound
    cases found with
    | none => exact hname
    | some inner => exact hname.of_subset (hfound inner rfl)
  simp only [Item.read, String.toList_ofList]
  refine hgetD (hgetD (solid_takeWord _) ?_) ?_
  · exact fun inner h => readBracketed_subset h
  · exact fun inner h => readQuestioned_subset h

namespace Tag

/-- The names that a tag gives. -/
def names : Tag → List String
  | declares title | inherits title | event title => [title.name]
  | cfg item | param item => [item.name]
  | property name _ | method name => name.toList
  | member owner name => owner :: name.toList
  | returns .. | type .. | flag .. | unknown .. => []

theorem solid_readWord? {text : List Char} {name : String} (h : readWord? text = some name) :
    Solid name.toList := by
  unfold readWord? at h
  split at h
  · cases h
  · obtain rfl := Option.some.inj h
    rw [String.toList_ofList]
    exact solid_takeWord _

/-- The class and the member that a tag names are parts of one word. -/
theorem solid_names_readMember (text : List Char) :
    ∀ n ∈ (readMember text).names, Solid n.toList := by
  have hword : Solid (splitWord text).1 := solid_takeWord _
  have howner := hword.of_subset (cutFirst_fst_subset '#' _)
  unfold readMember
  split
  · rename_i owner c name hcut
    have hname := hword.of_subset (cutFirst_snd_subset hcut)
    rw [hcut] at howner
    simpa [names] using ⟨howner, hname⟩
  · rename_i owner after hcut
    rw [hcut] at howner
    simpa [names] using howner

/-- The names that a tag gives are words or parts of words. -/
theorem solid_names (name : String) (text : List Char) :
    ∀ n ∈ (Tag.read name text).names, Solid n.toList := by
  have htitle : Solid (Titled.read text).name.toList := by
    rw [Titled.read, String.toList_ofList]
    exact solid_takeWord _
  have hitem := Item.solid_name text
  have hword : ∀ n, readWord? text = some n → Solid n.toList := fun n h => solid_readWord? h
  have hreturns : (readReturns text).names = [] := by
    unfold readReturns
    split <;> rfl
  unfold Tag.read
  split
  case h_8 | h_9 => simp [hreturns]
  case h_11 => exact solid_names_readMember text
  case h_12 => cases Flag.ofName? name <;> simp [names]
  case h_10 => simp [names]
  all_goals simpa [names]

end Tag

/-- No tag of a comment gives a name with a blank in it. -/
theorem DocBlock.solid_names (body : String) {t : Tag} (ht : t ∈ (DocBlock.read body).tags)
    {n : String} (hn : n ∈ t.names) : Solid n.toList := by
  obtain ⟨⟨name, lines⟩, -, rfl⟩ := List.mem_map.mp ht
  exact Tag.solid_names _ _ n hn

/-! ## Words of code -/

/-- A character of words is no blank: the two tables have nothing in common. -/
theorem Text.isBlank_of_isWordChar {c : Char} (h : isWordChar c = true) : isBlank c = false := by
  have hcodes :
      blankCodes.all
      (fun n => !(alphanumericRanges.any fun r => r.1 ≤ n && n ≤ r.2) && n != '.'.toNat &&
      n != '_'.toNat) = true := by decide +kernel
  rw [Bool.eq_false_iff]
  intro hblank
  rw [isBlank, List.contains_iff_mem] at hblank
  have hc := List.all_eq_true.mp hcodes _ hblank
  simp only [Bool.and_eq_true, Bool.not_eq_true', bne_iff_ne, ne_eq] at hc
  rw [isWordChar, isAlphanumeric, hc.1.1] at h
  simp only [Bool.false_or, Bool.or_eq_true, beq_iff_eq] at h
  rcases h with rfl | rfl
  · exact hc.1.2 rfl
  · exact hc.2 rfl

/-- The words behind the comment have no blanks in them. -/
def Comment.Wordy (x : Comment) : Prop :=
  Solid (x.first.toList ++ x.second.toList)

/-- There are no blanks in the words. -/
def Words.Wordy (w : Words) : Prop :=
  Solid (w.first ++ w.second)

/-- A character that is pushed is kept only if it is one of words. -/
theorem Words.mem_push {w : Words} {c x : Char} (hx : x ∈ (w.push c).first ++ (w.push c).second) :
    x ∈ w.first ++ w.second ∨ x = c ∧ isWordChar c = true := by
  cases hc : isWordChar c <;> cases w <;> simp [push, hc, first, second] at hx ⊢ <;> tauto

theorem Words.Wordy.push {w : Words} (h : w.Wordy) (c : Char) : (w.push c).Wordy := by
  intro x hx
  rcases mem_push hx with hx | ⟨rfl, hc⟩
  · exact h x hx
  · exact isBlank_of_isWordChar hc

theorem Words.Wordy.comment {p : Pending} (h : p.words.Wordy) : p.comment.Wordy := by
  rw [Comment.Wordy, Pending.comment, String.toList_ofList, String.toList_ofList]
  exact h

namespace Scanner

/-- The words that wait for their end have no blanks in them. -/
def Wordy : Scanner → Prop
  | code _ pending => ∀ p ∈ pending, p.words.Wordy
  | comment _ => True

/-- One character leaves no blanks in the words that wait, and none in those of the comment that it
ends. -/
theorem Wordy.step {s : Scanner} (h : s.Wordy) (c : Char) :
    (s.step c).1.Wordy ∧ ∀ x ∈ (s.step c).2, x.Wordy := by
  fun_cases Scanner.step s c with
  | case1 seen pending c pushed next hnext =>
    have hpushed : ∀ p ∈ pushed, p.words.Wordy := by
      intro p hp
      obtain ⟨q, hq, rfl⟩ := Option.mem_map.mp hp
      exact (h q hq).push c
    exact ⟨hpushed, by simp⟩
  | case2 seen pending c pushed hnext =>
    refine ⟨trivial, ?_⟩
    intro x hx
    obtain ⟨p, hp, rfl⟩ := Option.mem_map.mp hx
    obtain ⟨q, hq, rfl⟩ := Option.mem_map.mp hp
    exact ((h q hq).push c).comment
  | case3 body =>
    refine ⟨?_, by simp⟩
    intro p hp
    obtain rfl := Option.some.inj hp
    simp [Words.Wordy, Words.first, Words.second, Solid]
  | case4 => exact ⟨trivial, by simp⟩

/-- No text puts a blank into the words behind its comments. -/
theorem Wordy.feed {s : Scanner} (h : s.Wordy) (text : List Char) :
    (s.feed text).1.Wordy ∧ ∀ x ∈ (s.feed text).2, x.Wordy := by
  induction text generalizing s with
  | nil => exact ⟨h, by simp⟩
  | cons c text ih =>
    obtain ⟨hnext, hfound⟩ := h.step c
    obtain ⟨hlast, hmore⟩ := ih hnext
    have hcons : s.feed (c :: text) =
        (((s.step c).1.feed text).1, (s.step c).2.toList ++ ((s.step c).1.feed text).2) := by
      rw [Scanner.feed, List.foldl_cons, foldl_advance]
      unfold advance
      split <;> simp_all
    rw [hcons]
    refine ⟨hlast, List.forall_mem_append.mpr ⟨?_, hmore⟩⟩
    intro x hx
    exact hfound x (Option.mem_toList.mp hx)

theorem Wordy.feedAll {s : Scanner} (h : s.Wordy) (blocks : List (List Char)) :
    (s.feedAll blocks).1.Wordy ∧ ∀ x ∈ (s.feedAll blocks).2, x.Wordy := by
  rw [feedAll_eq_feed]
  exact h.feed blocks.flatten

theorem Wordy.close {s : Scanner} (h : s.Wordy) : ∀ x ∈ s.close.2, x.Wordy := by
  fun_cases Scanner.close s with
  | case1 seen p => simpa using (h p rfl).comment
  | case2 => simp

end Scanner

theorem Scanner.wordy_start : Scanner.start.Wordy := by
  simp [Scanner.start, Scanner.Wordy]

/-- The words behind the comments of a text in pieces have no blanks in them. -/
theorem Comment.wordy_of_mem_scanPieces {pieces : List (List Char)} :
    ∀ x ∈ Comment.scanPieces pieces, x.Wordy := by
  obtain ⟨hlast, hfound⟩ := Scanner.wordy_start.feedAll pieces
  exact List.forall_mem_append.mpr ⟨hfound, hlast.close⟩

/-- The words behind the comments of a source text have no blanks in them. -/
theorem Comment.wordy_of_mem_scan {source : String} : ∀ x ∈ Comment.scan source, x.Wordy :=
  wordy_of_mem_scanPieces

/-! ## Names of members -/

/-- The name of the member that an entity is. -/
def Entity.memberName? : Entity → Option String
  | .ofClass _ => none
  | .cfg m => some m.name
  | .property m => some m.name
  | .method m => some m.name
  | .event m => some m.name

/-- The names of all members. -/
def Members.names (ms : Members) : List String :=
  ms.cfgs.map (·.name) ++ ms.properties.map (·.name) ++ ms.methods.map (·.name) ++
    ms.events.map (·.name)

/-- The names of two collections of members together are those of one or the other. -/
theorem Members.mem_names_append {a b : Members} {n : String} :
    n ∈ (a ++ b).names ↔ n ∈ a.names ∨ n ∈ b.names := by
  change n ∈ (Members.append a b).names ↔ _
  simp only [names, append, List.map_append, List.mem_append]
  tauto

theorem Members.name_mem_names {ms : Members} {k : MemberKind} {m : Member k.Detail}
    (hm : m ∈ ms.ofKind k) : m.name ∈ ms.names := by
  simp only [names, List.mem_append]
  cases k with
  | cfg => exact Or.inl (Or.inl (Or.inl (List.mem_map_of_mem hm)))
  | property => exact Or.inl (Or.inl (Or.inr (List.mem_map_of_mem hm)))
  | method => exact Or.inl (Or.inr (List.mem_map_of_mem hm))
  | event => exact Or.inr (List.mem_map_of_mem hm)

theorem Catalog.mem_names_add {c : Catalog} {e : Entity} {n : String} :
    n ∈ (c.add e).members.names ↔ n ∈ c.members.names ∨ e.memberName? = some n := by
  cases e <;>
    simp only [add, Members.names, Entity.memberName?, List.map_append, List.map_cons, List.map_nil,
      List.mem_append, List.mem_singleton, Option.some.injEq, reduceCtorEq, eq_comm, or_false] <;>
    tauto

/-- The names of the members of a catalogue are those of its entities. -/
theorem Catalog.mem_names_ofEntities {es : List Entity} {n : String} :
    n ∈ (ofEntities es).members.names ↔ ∃ e ∈ es, e.memberName? = some n := by
  have hfold : ∀ c : Catalog, n ∈ (es.foldl add c).members.names ↔
      n ∈ c.members.names ∨ ∃ e ∈ es, e.memberName? = some n := by
    induction es with
    | nil => simp
    | cons e es ih =>
      intro c
      rw [List.foldl_cons, ih, mem_names_add, or_assoc]
      simp
  rw [ofEntities, hfold]
  simp [Members.names]

namespace DocBlock

variable {b : DocBlock}

/-- A tag of the block gives the name. -/
def Gives (b : DocBlock) (n : String) : Prop :=
  ∃ t ∈ b.tags, n ∈ t.names

/-- A name that is looked up by tags of one kind is given by one of them. -/
theorem gives_of_mem {α : Type} {read : Tag → Option α} {a : α} {n : String}
    (h : a ∈ b.tags.filterMap read) (hn : ∀ t, read t = some a → n ∈ t.names) : b.Gives n := by
  obtain ⟨t, ht, heq⟩ := List.mem_filterMap.mp h
  exact ⟨t, ht, hn t heq⟩

theorem gives_of_declared {title : Titled} (h : title ∈ b.declared) : b.Gives title.name :=
  gives_of_mem h fun t ht => by cases t <;> simp_all [Tag.names]

theorem gives_of_event {title : Titled} (h : title ∈ b.events) : b.Gives title.name :=
  gives_of_mem h fun t ht => by cases t <;> simp_all [Tag.names]

theorem gives_of_cfg {item : Item} (h : item ∈ b.cfgs) : b.Gives item.name :=
  gives_of_mem h fun t ht => by cases t <;> simp_all [Tag.names]

theorem gives_of_method {n : String} (h : some n ∈ b.methods) : b.Gives n :=
  gives_of_mem h fun t ht => by cases t <;> simp_all [Tag.names]

theorem gives_of_property {n : String} {d : Option String} (h : (some n, d) ∈ b.properties) :
    b.Gives n :=
  gives_of_mem h fun t ht => by cases t <;> simp_all [Tag.names]

theorem gives_of_member {owner n : String} (h : (owner, some n) ∈ b.members) : b.Gives n :=
  gives_of_mem h fun t ht => by cases t <;> simp_all [Tag.names]

theorem gives_of_memberName? {n : String} (h : n ∈ nonEmpty? b.memberName?) : b.Gives n := by
  obtain ⟨⟨owner, name⟩, hmember, hname⟩ :=
    Option.bind_eq_some_iff.mp (Option.filter_eq_some_iff.mp h).1
  obtain rfl : name = some n := hname
  exact gives_of_member (List.mem_of_mem_head? hmember)

end DocBlock

namespace Classifier

variable (cl : Classifier)

/-- A name comes from a tag of the comment, or from the code behind the comment. -/
def NamedBy (c : Comment) (n : String) : Prop :=
  c.block.Gives n ∨ n = cl.codeName c

/-- A name that is taken from one tag, else from another, else from the code, is one that the
comment gives. -/
theorem namedBy_getD {c : Comment} {first second : Option String}
    (hfirst : ∀ n ∈ first, c.block.Gives n) (hsecond : ∀ n ∈ second, c.block.Gives n) :
    cl.NamedBy c ((first <|> second).getD (cl.codeName c)) := by
  cases first with
  | some n => exact Or.inl (hfirst n rfl)
  | none =>
    cases second with
    | some n => exact Or.inl (hsecond n rfl)
    | none => exact Or.inr rfl

/-- A method is named by a tag of its comment or by the code behind it. -/
theorem namedBy_method (c : Comment) (ctx : Context) :
    cl.NamedBy c (cl.method c.block c ctx).value.name := by
  have hmethod : (cl.method c.block c ctx).value.name =
      (nonEmpty? (c.block.methods.head?.bind id) <|> nonEmpty? c.block.memberName?).getD
      (cl.codeName c) := by
    simp only [method, Logged.value_bind]
    cases c.block.returns.head? <;> rfl
  rw [hmethod]
  refine cl.namedBy_getD ?_ fun n hn => DocBlock.gives_of_memberName? hn
  intro n hn
  obtain ⟨name, hname, rfl⟩ := Option.bind_eq_some_iff.mp (Option.filter_eq_some_iff.mp hn).1
  exact DocBlock.gives_of_method (List.mem_of_mem_head? hname)

theorem namedBy_property (c : Comment) (ctx : Context) :
    cl.NamedBy c (cl.property c.block c ctx).value.name := by
  refine cl.namedBy_getD ?_ fun n hn => DocBlock.gives_of_memberName? hn
  intro n hn
  obtain ⟨⟨name, description⟩, htag, hname⟩ :=
    Option.bind_eq_some_iff.mp (Option.filter_eq_some_iff.mp hn).1
  obtain rfl : name = some n := hname
  exact DocBlock.gives_of_property (List.mem_of_mem_head? htag)

/-- Members that are not left out are those that were asked for. -/
theorem mem_entities_membersOrNone {α : Type} {b : DocBlock} {kind : EntityKind} {ctx : Context}
    {wrap : Member α → Entity} {ms : List (Member α)} {e : Entity}
    (he : e ∈ (membersOrNone b kind ctx wrap ms).value.entities) : ∃ m ∈ ms, e = wrap m := by
  unfold membersOrNone at he
  split at he
  · cases he
  · obtain ⟨m, hm, rfl⟩ := List.mem_map.mp he
    exact ⟨m, hm, rfl⟩

/-- The member that a comment documents is named by the comment. -/
theorem namedBy_classify {c : Comment} {ctx : Context} {e : Entity}
    (he : e ∈ (cl.classify c ctx).value.entities) {n : String} (hn : e.memberName? = some n) :
    cl.NamedBy c n := by
  cases hdeclared : c.block.declared.head? with
  | some title =>
    rw [cl.classify_class hdeclared] at he
    rcases List.mem_cons.mp he with rfl | hcfg
    · cases hn
    · obtain ⟨m, hm, rfl⟩ := List.mem_map.mp hcfg
      rw [Logged.value_mapM] at hm
      obtain ⟨item, hitem, rfl⟩ := List.mem_map.mp hm
      obtain rfl := Option.some.inj hn
      exact Or.inl (DocBlock.gives_of_cfg hitem)
  | none =>
    rw [cl.classify_member hdeclared] at he
    unfold memberComment at he
    split at he
    · rename_i title hkind hevent
      obtain ⟨m, hm, rfl⟩ := mem_entities_membersOrNone he
      obtain rfl := List.mem_singleton.mp hm
      obtain rfl := Option.some.inj hn
      exact Or.inl (DocBlock.gives_of_event (List.mem_of_mem_head? hevent))
    · obtain ⟨m, hm, rfl⟩ := mem_entities_membersOrNone he
      rw [Logged.value_mapM] at hm
      obtain ⟨item, hitem, rfl⟩ := List.mem_map.mp hm
      obtain rfl := Option.some.inj hn
      exact Or.inl (DocBlock.gives_of_cfg hitem)
    · obtain ⟨m, hm, rfl⟩ := mem_entities_membersOrNone he
      obtain rfl := List.mem_singleton.mp hm
      obtain rfl := Option.some.inj hn
      exact cl.namedBy_method c ctx
    · obtain ⟨m, hm, rfl⟩ := mem_entities_membersOrNone he
      obtain rfl := List.mem_singleton.mp hm
      obtain rfl := Option.some.inj hn
      exact cl.namedBy_property c ctx

/-- Every member of a source is named by one of its comments. -/
theorem namedBy_classifyAll {cs : List Comment} {ctx : Context} {e : Entity}
    (he : e ∈ (cl.classifyAll cs ctx).value.flatMap (·.entities)) {n : String}
    (hn : e.memberName? = some n) : ∃ c ∈ cs, cl.NamedBy c n := by
  induction cs generalizing ctx with
  | nil => cases he
  | cons c cs ih =>
    rw [value_classifyAll_cons, List.flatMap_cons, List.mem_append] at he
    rcases he with he | he
    · exact ⟨c, List.mem_cons_self, cl.namedBy_classify he hn⟩
    · obtain ⟨x, hx, hnamed⟩ := ih he
      exact ⟨x, List.mem_cons_of_mem _ hx, hnamed⟩

/-- A name that a comment gives has no blanks in it if the words behind the comment have none. -/
theorem NamedBy.solid {c : Comment} {n : String} (h : cl.NamedBy c n) (hc : c.Wordy) :
    Solid n.toList := by
  rcases h with ⟨t, ht, hn⟩ | rfl
  · exact DocBlock.solid_names c.body ht hn
  · obtain ⟨hfirst, hsecond⟩ := List.forall_mem_append.mp hc
    unfold codeName
    split
    · exact hsecond
    · exact hfirst

end Classifier

/-! ## Names in a model -/

namespace Collection

/-- The words behind the comments that are added have no blanks in them, as those that the scanner
finds in a text or a file. -/
def Addition.Wordy (a : Addition) : Prop :=
  ∀ c ∈ a.file.1, c.Wordy

/-- A source text adds no words with blanks in them. -/
theorem Addition.wordy_source (text fileName : String) : (Addition.source text fileName).Wordy :=
  Comment.wordy_of_mem_scan

/-- A member that is new after an addition is named by a comment of the addition. -/
theorem namedBy_next_add {c : Collection} {a : Addition} {n : String}
    (hn : n ∈ (c.next (.add a)).1.session.catalog.members.names) :
    n ∈ c.session.catalog.members.names ∨ ∃ x ∈ a.file.1, c.session.classifier.NamedBy x n := by
  simp only [next] at hn
  cases hfound : c.contribution a with
  | error e =>
    rw [hfound] at hn
    exact Or.inl hn
  | ok found =>
    rw [hfound] at hn
    rcases Members.mem_names_append.mp hn with hn | hn
    · exact Or.inl hn
    · obtain ⟨-, rfl⟩ := contribution_eq_ok.mp hfound
      obtain ⟨e, he, hname⟩ := Catalog.mem_names_ofEntities.mp hn
      exact Or.inr (c.session.classifier.namedBy_classifyAll he hname)

/-- If no member has a blank in its name, none has after additions without blanks in their words. -/
theorem solid_nextAll {c : Collection} {additions : List Addition} (h : ∀ a ∈ additions, a.Wordy)
    (hc : ∀ n ∈ c.session.catalog.members.names, Solid n.toList) :
    ∀ n ∈ (c.nextAll (additions.map .add)).1.session.catalog.members.names, Solid n.toList := by
  induction additions generalizing c with
  | nil => exact hc
  | cons a additions ih =>
    refine ih (fun b hb => h b (List.mem_cons_of_mem _ hb)) ?_
    intro n hn
    rcases namedBy_next_add hn with hn | ⟨x, hx, hnamed⟩
    · exact hc n hn
    · exact hnamed.solid _ (h a List.mem_cons_self x hx)

variable {config : Config} {history : List Call} {w : World} {model : Model}

/-- The classes of a model have no blanks in their names. -/
theorem solid_className (h : answer config history .build w = .built (.ok model)) {c : ClassEntry}
    (hc : c ∈ model.classes) : Solid c.name.full.toList := by
  have hpublic := (listed_iff_not_keptPrivate h c.name.full).mp ⟨c, hc, rfl⟩
  simp only [KeptPrivate, not_forall] at hpublic
  obtain ⟨x, -, hdefines, -⟩ := hpublic
  obtain ⟨title, htitle, hname⟩ := Option.map_eq_some_iff.mp hdefines
  obtain ⟨t, ht, hn⟩ := DocBlock.gives_of_declared (List.mem_of_mem_head? htitle)
  rw [← hname]
  exact DocBlock.solid_names x.body ht hn

/-- The members of a model have no blanks in their names if the words behind the comments have none.
-/
theorem solid_memberName (h : answer config history .build w = .built (.ok model))
    (hwordy : ∀ a ∈ additionsOf history, a.Wordy) {c : ClassEntry} (hc : c ∈ model.classes)
    {k : MemberKind} {m : Member k.Detail} (hm : m ∈ c.members.ofKind k) : Solid m.name.toList := by
  obtain ⟨l, -, -, hmembers⟩ := Hierarchy.members_listed (listed_of_answer h).1 hc
  rw [hmembers k, ← Member.map_listedAt] at hm
  obtain ⟨i, -, rfl⟩ := List.mem_map.mp hm
  refine solid_nextAll hwordy ?_ _ (Members.name_mem_names (List.get_mem _ i))
  intro n hn
  cases hn

end Collection

end ClassReference
