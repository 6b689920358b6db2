import ClassReference.Proofs.Definitions
import ClassReference.Proofs.JoinedComments

/-!
# Proofs: which tags count

What a comment documents is found by looking up tags of one kind at a time. So neither unknown tags
nor the order of tags of different kinds have any influence on it: comments that are alike in their
description and, kind by kind, in their tags are classified in the same way
(`Classifier.classify_alike`).
-/

namespace ClassReference

/-- Two tags are of different kinds. Flags are told apart by which flag they are. -/
def Tag.Differs (s t : Tag) : Prop :=
  s.kind ≠ t.kind ∨ ∃ f x g y, s = .flag f x ∧ t = .flag g y ∧ f ≠ g

namespace DocBlock

/-- Two blocks have the same description and, of each kind, the same tags in the same order. Unknown
tags do not count. -/
structure Alike (a b : DocBlock) : Prop where
  description : a.description = b.description
  ofKind : ∀ k, k ≠ .flag → k ≠ .unknown → a.ofKind k = b.ofKind k
  flagged : ∀ f, a.flagged f = b.flagged f

/-- Two blocks give the same answer whatever is looked up in them. -/
structure SameAnswers (a b : DocBlock) : Prop where
  description : a.description = b.description
  declared : a.declared = b.declared
  inherited : a.inherited = b.inherited
  cfgs : a.cfgs = b.cfgs
  params : a.params = b.params
  properties : a.properties = b.properties
  methods : a.methods = b.methods
  events : a.events = b.events
  returns : a.returns = b.returns
  types : a.types = b.types
  members : a.members = b.members
  flagged : ∀ f, a.flagged f = b.flagged f

/-- What tags of one kind alone give is given by the tags of this kind. -/
theorem filterMap_ofKind {β : Type} (b : DocBlock) {k : TagKind} {g : Tag → Option β}
    (hg : ∀ t : Tag, t.kind ≠ k → g t = none) : b.tags.filterMap g = (b.ofKind k).filterMap g := by
  rw [ofKind, List.filterMap_filter]
  refine List.filterMap_congr fun t _ => ?_
  split
  · rfl
  · rename_i hk
    exact hg t (by simpa using hk)

variable {a b : DocBlock}

/-- Blocks that are alike give the same answers. -/
theorem Alike.sameAnswers (h : a.Alike b) : a.SameAnswers b := by
  -- what is found by tags of one kind is found in the list of these
  have hlook : ∀ {β : Type} (k : TagKind), k ≠ .flag → k ≠ .unknown → ∀ {g : Tag → Option β},
      (∀ t : Tag, t.kind ≠ k → g t = none) → a.tags.filterMap g = b.tags.filterMap g := by
    intro β k hflag hunknown g hg
    rw [filterMap_ofKind a hg, filterMap_ofKind b hg, h.ofKind k hflag hunknown]
  refine {
    description := h.description
    declared := hlook .declares (by decide) (by decide) ?_
    inherited := hlook .inherits (by decide) (by decide) ?_
    cfgs := hlook .cfg (by decide) (by decide) ?_
    params := hlook .param (by decide) (by decide) ?_
    properties := hlook .property (by decide) (by decide) ?_
    methods := hlook .method (by decide) (by decide) ?_
    events := hlook .event (by decide) (by decide) ?_
    returns := hlook .returns (by decide) (by decide) ?_
    types := hlook .type (by decide) (by decide) ?_
    members := hlook .member (by decide) (by decide) ?_
    flagged := h.flagged }
  all_goals
    intro t ht
    cases t <;> first | exact absurd rfl ht | rfl

namespace SameAnswers

variable (h : a.SameAnswers b)

include h

theorem has (f : Flag) : a.has f = b.has f := by
  rw [DocBlock.has, DocBlock.has, h.flagged]

theorem excluded : a.excluded = b.excluded := by
  rw [DocBlock.excluded, DocBlock.excluded, h.has, h.has]

theorem owner (ctx : Context) : a.owner ctx = b.owner ctx := by
  rw [DocBlock.owner, DocBlock.owner, h.members]

theorem memberName? : a.memberName? = b.memberName? := by
  rw [DocBlock.memberName?, DocBlock.memberName?, h.members]

end SameAnswers

end DocBlock

/-! ## Classification -/

namespace Classifier

variable (cl : Classifier) {a b : DocBlock} (h : a.SameAnswers b)

include h

/-- The parameters are read off the answers of a block. -/
theorem params_congr (owner : ClassName) : cl.params a owner = cl.params b owner := by
  simp only [params, h.params]

/-- A class entry is read off the answers of a block. -/
theorem classEntry_congr (title : Titled) (ctx : Context) :
    cl.classEntry a title ctx = cl.classEntry b title ctx := by
  simp only [classEntry, h.inherited, h.description, h.has, h.excluded, h.flagged,
    cl.params_congr h]

theorem cfg_congr (item : Item) (owner : ClassName) (hidden static : Bool) :
    cl.cfg a item owner hidden static = cl.cfg b item owner hidden static := by
  simp only [cfg, h.description]

theorem event_congr (title : Titled) (ctx : Context) :
    cl.event a title ctx = cl.event b title ctx := by
  simp only [event, h.owner, h.description, h.has, cl.params_congr h]

/-- Whether members are left out is read off the answers of a block. -/
theorem membersOrNone_congr {α : Type} (kind : EntityKind) (ctx : Context)
    (wrap : Member α → Entity) (ms : List (Member α)) :
    membersOrNone a kind ctx wrap ms = membersOrNone b kind ctx wrap ms := by
  simp only [membersOrNone, h.excluded]

theorem classComment_congr (title : Titled) (ctx : Context) :
    cl.classComment a title ctx = cl.classComment b title ctx := by
  simp only [classComment, cl.classEntry_congr h, h.cfgs, cl.cfg_congr h]

section Words

variable {x y : Comment} (hfirst : x.first = y.first) (hsecond : x.second = y.second)

include hfirst hsecond

/-- The kind of a comment is read off the answers of its block and the words behind it. -/
theorem kindOf_congr : cl.kindOf a x = cl.kindOf b y := by
  simp only [kindOf, h.declared, h.events, h.cfgs, h.params, h.returns, h.methods, h.types,
    h.properties, hfirst, hsecond]

omit h in
theorem codeName_congr : cl.codeName x = cl.codeName y := by
  simp only [codeName, hfirst, hsecond]

/-- A method is read off the answers of a block and the words behind the comment. -/
theorem method_congr (ctx : Context) : cl.method a x ctx = cl.method b y ctx := by
  simp only [method, h.owner, h.methods, h.description, h.returns, h.memberName?, h.has,
    cl.params_congr h, cl.codeName_congr hfirst hsecond]

theorem property_congr (ctx : Context) : cl.property a x ctx = cl.property b y ctx := by
  simp only [property, h.owner, h.properties, h.description, h.types, h.memberName?, h.has,
    cl.codeName_congr hfirst hsecond]

/-- A member is read off the answers of a block and the words behind the comment. -/
theorem memberComment_congr (ctx : Context) :
    cl.memberComment a x ctx = cl.memberComment b y ctx := by
  simp only [memberComment, cl.kindOf_congr h hfirst hsecond, h.events, h.cfgs, h.owner, h.has,
    cl.event_congr h, cl.cfg_congr h, cl.method_congr h hfirst hsecond,
    cl.property_congr h hfirst hsecond, membersOrNone_congr h]

end Words

omit h in
/-- Comments that give the same answers, with the same words of code behind them, are classified in
the same way. -/
theorem classify_congr {x y : Comment} (h : x.block.SameAnswers y.block)
    (hfirst : x.first = y.first) (hsecond : x.second = y.second) (ctx : Context) :
    cl.classify x ctx = cl.classify y ctx := by
  have hhead : x.block.declared.head? = y.block.declared.head? := by rw [h.declared]
  cases hd : y.block.declared.head? with
  | some title =>
    rw [cl.classify_class hd, cl.classify_class (hhead.trans hd), cl.classComment_congr h]
  | none =>
    rw [cl.classify_member hd, cl.classify_member (hhead.trans hd),
      cl.memberComment_congr h hfirst hsecond]

end Classifier

/-! ## Tags that are added or moved -/

namespace DocBlock

variable {d : String}

theorem ofKind_append (as bs : List Tag) (k : TagKind) :
    (DocBlock.mk d (as ++ bs)).ofKind k =
      (DocBlock.mk d as).ofKind k ++ (DocBlock.mk d bs).ofKind k :=
  List.filter_append ..

theorem flagged_append (as bs : List Tag) (f : Flag) :
    (DocBlock.mk d (as ++ bs)).flagged f =
      (DocBlock.mk d as).flagged f ++ (DocBlock.mk d bs).flagged f :=
  List.filterMap_append

/-- Among tags of other kinds there is none of this kind. -/
theorem ofKind_eq_nil {ts : List Tag} {k : TagKind} (h : ∀ t ∈ ts, t.kind ≠ k) :
    (DocBlock.mk d ts).ofKind k = [] := by
  refine List.filter_eq_nil_iff.mpr fun t ht => ?_
  simpa using h t ht

theorem flagged_eq_nil {ts : List Tag} {f : Flag} (h : ∀ text, .flag f text ∉ ts) :
    (DocBlock.mk d ts).flagged f = [] := by
  refine List.filterMap_eq_nil_iff.mpr fun t ht => ?_
  split
  · rename_i g text
    refine if_neg ?_
    rintro rfl
    exact h text ht
  · rfl

/-- Unknown tags can be left out anywhere. -/
theorem alike_of_unknown {before us after : List Tag} (h : ∀ t ∈ us, t.kind = .unknown) :
    Alike ⟨d, before ++ (us ++ after)⟩ ⟨d, before ++ after⟩ where
  description := rfl
  ofKind k _ hunknown := by
    have hus : (DocBlock.mk d us).ofKind k = [] := by
      refine ofKind_eq_nil fun t ht => ?_
      rw [h t ht]
      exact hunknown.symm
    rw [ofKind_append, ofKind_append, ofKind_append, hus, List.nil_append]
  flagged f := by
    have hus : (DocBlock.mk d us).flagged f = [] :=
      flagged_eq_nil fun text htext => nomatch h _ htext
    rw [flagged_append, flagged_append, flagged_append, hus, List.nil_append]

/-- Tags of different kinds can change places. -/
theorem alike_of_differs {before ss ts after : List Tag} (h : ∀ s ∈ ss, ∀ t ∈ ts, s.Differs t) :
    Alike ⟨d, before ++ (ss ++ (ts ++ after))⟩ ⟨d, before ++ (ts ++ (ss ++ after))⟩ where
  description := rfl
  ofKind k hflag _ := by
    -- tags of this kind are not on both sides
    have hnil : (DocBlock.mk d ss).ofKind k = [] ∨ (DocBlock.mk d ts).ofKind k = [] := by
      by_cases hs : ∃ s ∈ ss, s.kind = k
      · obtain ⟨s, hs, rfl⟩ := hs
        refine Or.inr (ofKind_eq_nil fun t ht hkind => ?_)
        rcases h s hs t ht with hne | ⟨f, x, g, y, rfl, -, -⟩
        · exact hne hkind.symm
        · exact hflag rfl
      · exact Or.inl (ofKind_eq_nil fun s hmem hkind => hs ⟨s, hmem, hkind⟩)
    rcases hnil with hnil | hnil <;> simp only [ofKind_append, hnil, List.nil_append]
  flagged f := by
    have hnil : (DocBlock.mk d ss).flagged f = [] ∨ (DocBlock.mk d ts).flagged f = [] := by
      by_cases hs : ∃ x, .flag f x ∈ ss
      · obtain ⟨x, hx⟩ := hs
        refine Or.inr (flagged_eq_nil fun y hy => ?_)
        rcases h _ hx _ hy with hne | ⟨f', x', g', y', hf, hg, hne⟩
        · exact hne rfl
        · cases hf
          cases hg
          exact hne rfl
      · exact Or.inl (flagged_eq_nil fun x hx => hs ⟨x, hx⟩)
    rcases hnil with hnil | hnil <;> simp only [flagged_append, hnil, List.nil_append]

end DocBlock

namespace TagPart

variable (head first second : String) (before after : List TagPart)

/-- A part of a comment that has unknown tags only can be left out. -/
theorem alike_without {u : TagPart} (h : ∀ t ∈ u.tags, t.kind = .unknown) :
    (Comment.mk (joined head (before ++ u :: after)) first second).block.Alike
      (Comment.mk (joined head (before ++ after)) first second).block := by
  simp only [Comment.block, read_joined_parts, List.flatMap_append, List.flatMap_cons,
    ← List.append_assoc (DocBlock.tags _)]
  exact DocBlock.alike_of_unknown h

/-- Two neighbouring parts of a comment whose tags are of different kinds can change places. -/
theorem alike_swapped {s t : TagPart} (h : ∀ x ∈ s.tags, ∀ y ∈ t.tags, x.Differs y) :
    (Comment.mk (joined head (before ++ s :: t :: after)) first second).block.Alike
      (Comment.mk (joined head (before ++ t :: s :: after)) first second).block := by
  simp only [Comment.block, read_joined_parts, List.flatMap_append, List.flatMap_cons,
    ← List.append_assoc (DocBlock.tags _)]
  exact DocBlock.alike_of_differs h

end TagPart

namespace Classifier

/-- What a comment documents depends on its description, on the words behind it, and on its tags of
each kind by themselves. So unknown tags can be put in or left out where a tag starts or the comment
ends, and neighbouring tags of different kinds can change places. -/
theorem classify_alike (cl : Classifier) (ctx : Context) :
    (∀ x y : Comment, x.first = y.first → x.second = y.second → x.block.Alike y.block →
      cl.classify x ctx = cl.classify y ctx) ∧
    (∀ (head first second : String) (before after : List TagPart) (u : TagPart),
      (∀ t ∈ u.tags, t.kind = .unknown) →
      cl.classify ⟨TagPart.joined head (before ++ u :: after), first, second⟩ ctx =
        cl.classify ⟨TagPart.joined head (before ++ after), first, second⟩ ctx) ∧
    ∀ (head first second : String) (before after : List TagPart) (s t : TagPart),
      (∀ x ∈ s.tags, ∀ y ∈ t.tags, x.Differs y) →
      cl.classify ⟨TagPart.joined head (before ++ s :: t :: after), first, second⟩ ctx =
        cl.classify ⟨TagPart.joined head (before ++ t :: s :: after), first, second⟩ ctx := by
  refine ⟨?_, ?_, ?_⟩
  · intro x y hfirst hsecond h
    exact cl.classify_congr h.sameAnswers hfirst hsecond ctx
  · intro head first second before after u hu
    exact cl.classify_congr
      (TagPart.alike_without head first second before after hu).sameAnswers rfl rfl ctx
  · intro head first second before after s t hst
    exact cl.classify_congr
      (TagPart.alike_swapped head first second before after hst).sameAnswers rfl rfl ctx

/-- A method with its tags in any order, an unknown one among them. -/
def shuffledRun : Comment where
  body := "Runs.\n@author me\n@hide\n@param {Number} n\n@static\n@param m"
  first := "run"

/-- The same method with its tags in another order. -/
def sortedRun : Comment where
  body := "Runs.\n@static\n@param {Number} n\n@param m\n@hide"
  first := "run"

theorem block_shuffledRun : shuffledRun.block =
    ⟨"Runs.", [.unknown "author" "me", .flag .hidden "", .param ⟨"n", some "Number", none, false⟩,
      .flag .static "",
      .param ⟨"m", none, none, false⟩]⟩ := by
  decide +kernel

theorem block_sortedRun : sortedRun.block =
    ⟨"Runs.", [.flag .static "", .param ⟨"n", some "Number", none, false⟩,
      .param ⟨"m", none, none, false⟩,
      .flag .hidden ""]⟩ := by
  decide +kernel

def authorPart : TagPart := ⟨" * @author me", by decide +kernel⟩

def hidePart : TagPart := ⟨" * @hide", by decide +kernel⟩

def paramPart : TagPart := ⟨" * @param n\n * Its number", by decide +kernel⟩

theorem shuffledRun_alike :
    shuffledRun.block.Alike sortedRun.block ∧
    ({} : Classifier).classify shuffledRun {} = ({} : Classifier).classify sortedRun {} ∧
    (∀ t ∈ authorPart.tags, t.kind = .unknown) ∧
    ({} : Classifier).classify
        { body := TagPart.joined "Runs." [hidePart, authorPart, paramPart] } {} =
      ({} : Classifier).classify { body := TagPart.joined "Runs." [hidePart, paramPart] } {} ∧
    (∀ x ∈ hidePart.tags, ∀ y ∈ paramPart.tags, x.Differs y) ∧
    ({} : Classifier).classify { body := TagPart.joined "Runs." [hidePart, paramPart] } {} =
      ({} : Classifier).classify { body := TagPart.joined "Runs." [paramPart, hidePart] } {} := by
  have halike : shuffledRun.block.Alike sortedRun.block := by
    rw [block_shuffledRun, block_sortedRun]
    refine ⟨rfl, fun k hflag hunknown => ?_, fun f => ?_⟩
    · cases k with
      | flag => exact absurd rfl hflag
      | unknown => exact absurd rfl hunknown
      | _ => rfl
    · cases f <;> rfl
  have hauthor : authorPart.tags = [.unknown "author" "me"] := by decide +kernel
  have hhide : hidePart.tags = [.flag .hidden ""] := by decide +kernel
  have hparam : paramPart.tags = [.param ⟨"n", none, some "Its number", false⟩] := by decide +kernel
  have hunknown : ∀ t ∈ authorPart.tags, t.kind = .unknown := by
    rw [hauthor]
    exact List.forall_mem_singleton.mpr rfl
  have hdiffers : ∀ x ∈ hidePart.tags, ∀ y ∈ paramPart.tags, x.Differs y := by
    rw [hhide, hparam]
    exact List.forall_mem_singleton.mpr (List.forall_mem_singleton.mpr (Or.inl (by decide)))
  obtain ⟨hsame, hwithout, hswapped⟩ := classify_alike {} {}
  exact ⟨halike, hsame _ _ rfl rfl halike, hunknown, hwithout "Runs." "" "" [hidePart]
    [paramPart] _ hunknown, hdiffers,
    hswapped "Runs." "" "" [] [] _ _ hdiffers⟩

end Classifier

end ClassReference
