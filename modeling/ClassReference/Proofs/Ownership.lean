import Mathlib.Data.List.Forall2
import ClassReference.Proofs.Definitions
import ClassReference.Proofs.RenderedLinks
import ClassReference.Proofs.WrittenSources

/-!
# Proofs: which class an entity belongs to

A class comment sets the class that the members behind it belong to, and only a member tag puts a
member elsewhere. So the owner of an entity can be read off the comments of its file (`ownerName`),
and what is said about the entity is seen from just that class (`Collection.entities_owned`).
-/

namespace ClassReference

/-! ## Entities with what is said about them -/

namespace Entity

/-- The class that an entity belongs to. A class belongs to itself. -/
def owner : Entity → ClassName
  | .ofClass e => e.name
  | .cfg m => m.owner
  | .property m => m.owner
  | .method m => m.owner
  | .event m => m.owner

/-- All that is said about an entity, about its constructor, about what it returns and about its
parameters. -/
def descriptions : Entity → List Description
  | .ofClass e => e.description :: (e.constructorDescription.toList ++ e.params.map (·.description))
  | .cfg m => [m.description]
  | .property m => [m.description]
  | .method m =>
    m.description :: (m.detail.returnDescription.toList ++ m.detail.params.map (·.description))
  | .event m => m.description :: m.detail.params.map (·.description)

/-- What is said about an entity are the given texts, seen from the class that it belongs to. -/
def Shows (style : LinkStyle) (e : Entity) (texts : List String) : Prop :=
  List.Forall₂ (fun (d : Description) text =>
    LinkedText.SeenFrom style e.owner.full text.toList d.long.toList)
    e.descriptions texts

end Entity

namespace DocBlock

variable (b : DocBlock)

def paramTexts : List String :=
  b.params.map fun item => item.description.getD ""

/-- The texts about a class, and about its constructor if that is documented. -/
def classTexts (title : Titled) : List String :=
  (title.description <|> b.inherited.head?.bind (·.description)).getD b.description ::
    match (b.flagged .constructor).head? with
    | some text => text :: b.paramTexts
    | none => []

/-- The texts about each config option. -/
def cfgTexts : List (List String) :=
  b.cfgs.map fun item => [(nonEmpty? item.description).getD b.description]

/-- The texts about each member of the given kind that a block documents. -/
def memberTexts : EntityKind → List (List String)
  | .event => [(b.events.head?.bind fun title => nonEmpty? title.description).getD b.description ::
    b.paramTexts]
  | .cfg => b.cfgTexts
  | .method => [b.description ::
      ((b.returns.head?.map fun r => r.2.getD "").toList ++ b.paramTexts)]
  | _ => [[(nonEmpty? (some b.description) <|> b.properties.head?.bind (·.2)).getD ""]]

end DocBlock

/-- The texts about each entity that a comment contributes. -/
def Comment.texts (c : Comment) (kind : EntityKind) : List (List String) :=
  match c.block.declared.head? with
  | some title => c.block.classTexts title :: c.block.cfgTexts
  | none => if c.block.excluded then [] else c.block.memberTexts kind

/-! ## Owners -/

/-- The full name of the class that the last class comment documents; empty if there is none. -/
def lastClass (before : List Comment) : String :=
  ((before.filterMap (·.block.declared.head?)).getLast?.map (·.name)).getD ""

/-- The full name of the class that the members of a comment belong to, with the comments before
it. -/
def ownerName (before : List Comment) (c : Comment) : String :=
  (nonEmpty? (c.block.members.head?.map (·.1))).getD (lastClass before)

/-- The context of a comment with the given comments before it. -/
def Context.after (fileName : String) (before : List Comment) : Context :=
  ⟨fileName, ClassName.ofFull (lastClass before)⟩

/-- The entities of a comment belong to the classes that they should, and are described as seen from
there. -/
structure Classification.Owned (style : LinkStyle) (fileName : String) (before : List Comment)
    (c : Comment) (r : Classification) : Prop where
  /-- A class comes first, with the config options of its comment behind it. -/
  ofClass : ∀ title, c.block.declared.head? = some title → ∃ (entry : ClassEntry) (cfgs : List Cfg),
    r.entities = .ofClass entry :: cfgs.map .cfg ∧ entry.name.full = title.name ∧
    entry.definedIn = fileName ∧
    cfgs.map (fun m => (m.name, m.detail)) =
      c.block.cfgs.map (fun item => (item.name, { type := item.type, optional := item.optional })) ∧
    (∀ m ∈ cfgs, m.owner = entry.name) ∧ r.context = ⟨fileName, entry.name⟩
  /-- Any other comment has only members, all of one class, and leaves the context as it is. -/
  ofMember : c.block.declared.head? = none →
    (∀ e ∈ r.entities, e.class? = none ∧ e.owner.full = ownerName before c) ∧
    r.context = .after fileName before
  short : ∀ e ∈ r.entities, ∃ package, ClassName.SplitAtLastDot e.owner.full package e.owner.short
  shows : List.Forall₂ (Entity.Shows style) r.entities (c.texts r.kind)

/-! ## One entity -/

theorem getD_orElse_some (text : Option String) (fallback : String) :
    (text <|> some fallback).getD "" = text.getD fallback := by
  cases text <;> rfl

namespace Classifier

variable (cl : Classifier) (b : DocBlock)

/-- A description that is made for a class is its text as it is seen from the class. -/
theorem seen_describe (text : Option String) (owner : ClassName) :
    LinkedText.SeenFrom cl.style owner.full (text.getD "").toList
      (cl.describe text owner).value.long.toList :=
  Description.seenFrom_ofText cl.style text owner.full false

theorem seen_describeShortly (text : Option String) (owner : ClassName) :
    LinkedText.SeenFrom cl.style owner.full (text.getD "").toList
      (cl.describeShortly text owner).value.long.toList :=
  Description.seenFrom_ofText cl.style text owner.full true

/-- The descriptions of parameters are their texts, one by one, as they are seen from the owner. -/
theorem seen_params (owner : ClassName) :
    List.Forall₂ (fun (d : Description) text =>
        LinkedText.SeenFrom cl.style owner.full text.toList d.long.toList)
      ((cl.params b owner).value.map (·.description)) b.paramTexts := by
  rw [params, Logged.value_mapM, List.map_map, DocBlock.paramTexts, List.forall₂_map_left_iff,
    List.forall₂_map_right_iff]
  exact List.forall₂_same.mpr fun item _ => cl.seen_describe item.description owner

theorem name_classEntry (title : Titled) (ctx : Context) :
    (cl.classEntry b title ctx).value.name = ClassName.ofFull title.name := by
  simp only [classEntry, Logged.value_bind]
  split <;> rfl

theorem definedIn_classEntry (title : Titled) (ctx : Context) :
    (cl.classEntry b title ctx).value.definedIn = ctx.fileName := by
  simp only [classEntry, Logged.value_bind]
  split <;> rfl

/-- A class shows the texts of its comment as they are seen from the class. -/
theorem shows_classEntry (title : Titled) (ctx : Context) :
    (Entity.ofClass (cl.classEntry b title ctx).value).Shows cl.style (b.classTexts title) := by
  have htext : (title.description <|> b.inherited.head?.bind (·.description) <|>
      some b.description).getD "" =
      (title.description <|> b.inherited.head?.bind (·.description)).getD b.description := by
    cases title.description with
    | some text => rfl
    | none => exact getD_orElse_some _ b.description
  have hown := cl.seen_describe (title.description <|> b.inherited.head?.bind (·.description) <|>
    some b.description)
    (ClassName.ofFull title.name)
  rw [htext] at hown
  simp only [Entity.Shows, Entity.owner, name_classEntry, DocBlock.classTexts]
  cases hconstructor : (b.flagged .constructor).head? with
  | none =>
    simp only [classEntry, hconstructor, Logged.value_bind, Logged.value_pure]
    exact .cons hown .nil
  | some text =>
    simp only [classEntry, hconstructor, Logged.value_bind, Logged.value_pure]
    exact .cons hown (.cons (cl.seen_describe (some text) _) (cl.seen_params b _))

theorem shows_cfg (item : Item) (owner : ClassName) (hidden static : Bool) :
    (Entity.cfg (cl.cfg b item owner hidden static).value).Shows cl.style
      [(nonEmpty? item.description).getD b.description] := by
  have hown := cl.seen_describe (nonEmpty? item.description <|> some b.description) owner
  rw [getD_orElse_some] at hown
  exact .cons hown .nil

/-- The options of a comment show their texts, one by one, as they are seen from the owner. -/
theorem shows_cfgs (owner : ClassName) (hidden static : Bool) :
    List.Forall₂ (Entity.Shows cl.style)
      ((b.cfgs.map fun item => (cl.cfg b item owner hidden static).value).map .cfg) b.cfgTexts := by
  rw [List.map_map, DocBlock.cfgTexts, List.forall₂_map_left_iff, List.forall₂_map_right_iff]
  exact List.forall₂_same.mpr fun item _ => cl.shows_cfg b item owner hidden static

theorem shows_event {title : Titled} (h : b.events.head? = some title) (ctx : Context) :
    List.Forall₂ (Entity.Shows cl.style) [Entity.event (cl.event b title ctx).value]
      (b.memberTexts .event) := by
  have hown := cl.seen_describeShortly (nonEmpty? title.description <|> some b.description)
    (b.owner ctx)
  rw [getD_orElse_some] at hown
  rw [DocBlock.memberTexts, h, Option.bind_some]
  exact .cons (.cons hown (cl.seen_params b _)) .nil

theorem owner_method (c : Comment) (ctx : Context) :
    (cl.method b c ctx).value.owner = b.owner ctx := by
  simp only [method, Logged.value_bind]
  split <;> rfl

/-- A method shows the texts of its comment as they are seen from its owner. -/
theorem shows_method (c : Comment) (ctx : Context) :
    List.Forall₂ (Entity.Shows cl.style) [Entity.method (cl.method b c ctx).value]
      (b.memberTexts .method) := by
  have hown := cl.seen_describeShortly (some b.description) (b.owner ctx)
  have hparams := cl.seen_params b (b.owner ctx)
  refine .cons ?_ .nil
  simp only [method, Logged.value_bind]
  cases b.returns.head? with
  | none => exact .cons hown hparams
  | some r => exact .cons hown (.cons (cl.seen_describe r.2 _) hparams)

theorem shows_property (c : Comment) (ctx : Context) :
    List.Forall₂ (Entity.Shows cl.style) [Entity.property (cl.property b c ctx).value]
      (b.memberTexts .property) :=
  .cons (.cons (cl.seen_describe _ _) .nil) .nil

/-! ## One comment -/

/-- The members of a comment belong to the class that it gives, and are described as seen from
there. -/
theorem memberComment_owned (c : Comment) (ctx : Context) :
    ∃ kind es, (cl.memberComment b c ctx).value = ⟨kind, if b.excluded then [] else es, ctx⟩ ∧
      (∀ e ∈ es, e.class? = none ∧ e.owner = b.owner ctx) ∧
      List.Forall₂ (Entity.Shows cl.style) es (b.memberTexts kind) := by
  obtain ⟨kind, es, hvalue, hes⟩ := cl.memberComment_cases b c ctx
  refine ⟨kind, es, hvalue, ?_⟩
  rcases hes with ⟨title, hevent, rfl, rfl⟩ | ⟨rfl, rfl⟩ | ⟨rfl, rfl⟩ | ⟨rfl, rfl⟩
  · exact ⟨List.forall_mem_singleton.mpr ⟨rfl, rfl⟩, cl.shows_event b hevent ctx⟩
  · refine ⟨?_, cl.shows_cfgs b _ _ _⟩
    intro e he
    rw [List.map_map] at he
    obtain ⟨item, -, rfl⟩ := List.mem_map.mp he
    exact ⟨rfl, rfl⟩
  · exact ⟨List.forall_mem_singleton.mpr ⟨rfl, cl.owner_method b c ctx⟩, cl.shows_method b c ctx⟩
  · exact ⟨List.forall_mem_singleton.mpr ⟨rfl, rfl⟩, cl.shows_property b c ctx⟩

/-- A member belongs to the class that its comment names, or else to the last class before it. -/
theorem owner_after (fileName : String) (before : List Comment) (c : Comment) :
    c.block.owner (.after fileName before) = ClassName.ofFull (ownerName before c) := by
  unfold DocBlock.owner ownerName nonEmpty?
  cases c.block.members.head? with
  | none => rfl
  | some m =>
    by_cases h : m.1 = ""
    · simp [h, Option.filter, Context.after]
    · simp [h, Option.filter]

theorem owned_classComment {c : Comment} {title : Titled} (h : c.block.declared.head? = some title)
    (fileName : String) (before : List Comment) :
    (cl.classComment c.block title (.after fileName before)).value.Owned
      cl.style fileName before c := by
  have hname := cl.name_classEntry c.block title (.after fileName before)
  have howner : ∀ e ∈ (cl.classComment c.block title (.after fileName before)).value.entities,
      e.owner = ClassName.ofFull title.name := by
    intro e he
    rcases List.mem_cons.mp he with rfl | he
    · exact hname
    · rw [Logged.value_mapM, List.map_map] at he
      obtain ⟨item, -, rfl⟩ := List.mem_map.mp he
      exact hname
  constructor
  case ofClass =>
    intro title' h'
    obtain rfl := Option.some.inj (h.symm.trans h')
    refine ⟨(cl.classEntry c.block title (.after fileName before)).value, _, rfl,
      congrArg (·.full) hname,
      cl.definedIn_classEntry c.block title _, ?_, ?_, rfl⟩
    · rw [Logged.value_mapM, List.map_map]
      rfl
    · intro m hm
      rw [Logged.value_mapM] at hm
      obtain ⟨item, -, rfl⟩ := List.mem_map.mp hm
      rfl
  case ofMember =>
    intro hnone
    rw [h] at hnone
    cases hnone
  case short =>
    intro e he
    rw [howner e he]
    exact ⟨_, ClassName.splitAtLastDot title.name⟩
  case shows =>
    simp only [Comment.texts, h]
    refine .cons (cl.shows_classEntry c.block title _) ?_
    rw [Logged.value_mapM]
    exact cl.shows_cfgs c.block _ _ _

theorem owned_memberComment {c : Comment} (h : c.block.declared.head? = none) (fileName : String)
    (before : List Comment) :
    (cl.memberComment c.block c (.after fileName before)).value.Owned
      cl.style fileName before c := by
  obtain ⟨kind, es, hvalue, howner, hshows⟩ :=
    cl.memberComment_owned c.block c (.after fileName before)
  have hkept : ∀ e ∈ if c.block.excluded then [] else es,
      e.class? = none ∧ e.owner = ClassName.ofFull (ownerName before c) := by
    intro e he
    rw [← owner_after fileName]
    split at he
    · cases he
    · exact howner e he
  rw [hvalue]
  constructor
  case ofClass =>
    intro title hsome
    rw [h] at hsome
    cases hsome
  case ofMember =>
    refine fun _ => ⟨fun e he => ⟨(hkept e he).1, ?_⟩, rfl⟩
    rw [(hkept e he).2]
    rfl
  case short =>
    intro e he
    rw [(hkept e he).2]
    exact ⟨_, ClassName.splitAtLastDot _⟩
  case shows =>
    simp only [Comment.texts, h]
    split
    · exact .nil
    · exact hshows

/-- What a comment documents is owned as the comments before it say. -/
theorem owned_classify (fileName : String) (before : List Comment) (c : Comment) :
    (cl.classify c (.after fileName before)).value.Owned cl.style fileName before c := by
  cases h : c.block.declared.head? with
  | some title =>
    rw [cl.classify_class h]
    exact cl.owned_classComment h fileName before
  | none =>
    rw [cl.classify_member h]
    exact cl.owned_memberComment h fileName before

/-- The place that a comment leaves for the next is the one behind it. -/
theorem context_classify (fileName : String) (before : List Comment) (c : Comment) :
    (cl.classify c (.after fileName before)).value.context = .after fileName (before ++ [c]) := by
  have howned := cl.owned_classify fileName before c
  cases h : c.block.declared.head? with
  | some title =>
    rw [cl.classify_class h]
    change Context.mk fileName (cl.classEntry c.block title _).value.name = _
    rw [name_classEntry]
    simp [Context.after, lastClass, h]
  | none =>
    rw [(howned.ofMember h).2]
    simp [Context.after, lastClass, h]

/-! ## The comments of a file -/

theorem length_classifyAll (cs : List Comment) (ctx : Context) :
    (cl.classifyAll cs ctx).value.length = cs.length := by
  induction cs generalizing ctx with
  | nil => rfl
  | cons c cs ih => rw [value_classifyAll_cons, List.length_cons, List.length_cons, ih]

/-- Each comment is classified in the context of all comments before it. -/
theorem getElem?_classifyAll (fileName : String) (seen before after : List Comment) (c : Comment) :
    (cl.classifyAll (before ++ c :: after) (.after fileName seen)).value[before.length]? =
      some (cl.classify c (.after fileName (seen ++ before))).value := by
  -- the context after the first comment is that of a longer list of comments seen
  induction before generalizing seen with
  | nil => rw [List.nil_append, value_classifyAll_cons, List.append_nil]; rfl
  | cons b before ih =>
    rw [List.cons_append, value_classifyAll_cons, List.length_cons, List.getElem?_cons_succ,
      context_classify, ih, List.append_assoc, List.singleton_append]

end Classifier

namespace Collection

variable (c : Collection)

/-- What the comments of a file document, comment by comment. -/
def classified (comments : List Comment) (fileName : String) : List Classification :=
  (c.session.classifier.classifyAll comments { fileName }).value

/-- Where every setting can be used, every addition can be collected. -/
theorem contribution_of_usable (h : c.config.unusable = []) (a : Addition) :
    ∃ found, c.contribution a = .ok found := by
  refine ⟨_, contribution_eq_ok.mpr ⟨fun s _ => ?_, rfl⟩⟩
  rw [h]
  cases s <;> rfl

/-- Which class an entity belongs to follows from the comments of its file. The entities that are
collected are those of the single comments, in order; each comment contributes to the classes that
it should, and its links to members alone lead to members of these same classes. -/
theorem entities_owned (comments : List Comment) (fileName : String) (w : World) :
    (∀ d found, ((c.addComments comments fileName).run w).1 = .ok (d, found) →
      found = Catalog.ofEntities ((c.classified comments fileName).flatMap (·.entities)) ∧
      d = { c with session := c.session.add found }) ∧
    (c.config.unusable = [] → ∃ d found, ((c.addComments comments fileName).run w).1 =
      .ok (d, found)) ∧
    (c.classified comments fileName).length = comments.length ∧
    ∀ before x after, comments = before ++ x :: after → ∃ r,
      (c.classified comments fileName)[before.length]? = some r ∧
      r = (c.session.classifier.classify x (.after fileName before)).value ∧
      r.Owned c.session.classifier.style fileName before x := by
  refine ⟨?_, ?_, c.session.classifier.length_classifyAll comments _, ?_⟩
  · intro d found hrun
    rw [addComments_value] at hrun
    cases hfound : c.contribution (.comments comments fileName) with
    | error e =>
      rw [hfound] at hrun
      cases hrun
    | ok found' =>
      rw [hfound] at hrun
      obtain ⟨rfl, rfl⟩ := Prod.mk.inj (Except.ok.inj hrun)
      exact ⟨(contribution_eq_ok.mp hfound).2.symm, rfl⟩
  · intro husable
    obtain ⟨found, hfound⟩ := c.contribution_of_usable husable (.comments comments fileName)
    rw [addComments_value, hfound]
    exact ⟨_, found, rfl⟩
  · rintro before x after rfl
    have hat := c.session.classifier.getElem?_classifyAll fileName [] before after x
    rw [List.nil_append] at hat
    exact ⟨_, hat, rfl, c.session.classifier.owned_classify fileName before x⟩

/-- A class with a config option and a private class, with a method behind them. -/
def doorAndFrame : List Comment :=
  [{ body := "@class ui.Door\n@cfg size" }, { body := "@class ui.Frame\n@private" },
    { body := "As \x7b@link #open\x7d", first := "function", second := "shut" }]

/-- A method that a member tag puts into another class than the last one. -/
def borrowedSlam : Comment :=
  { body := "As \x7b@link #shut\x7d\n@member ui.Door#slam\n@return {Number} \x7b@link #open\x7d" }

theorem borrowedSlam_owned : ∃ r d found,
    (((start {}).addComments (doorAndFrame ++ [borrowedSlam]) "a.js").run noFiles).1 =
      .ok (d, found) ∧
    ((start {}).classified (doorAndFrame ++ [borrowedSlam]) "a.js")[3]? = some r ∧
    r.Owned (start {}).session.classifier.style "a.js" doorAndFrame borrowedSlam ∧
    lastClass doorAndFrame = "ui.Frame" ∧ ownerName doorAndFrame borrowedSlam = "ui.Door" ∧
    found.members.methods.map
      (fun m => (m.name, m.owner.full, (Entity.method m).descriptions.map (·.long))) =
      [("shut", "ui.Frame", ["As " ++ Link.render {} ⟨"ui.Frame", some "open", "open"⟩]),
        ("slam", "ui.Door", ["As " ++ Link.render {} ⟨"ui.Door", some "shut", "shut"⟩,
          Link.render {} ⟨"ui.Door", some "open", "open"⟩])] := by
  obtain ⟨hfound, hreturns, -, howned⟩ :=
    entities_owned (start {}) (doorAndFrame ++ [borrowedSlam]) "a.js" noFiles
  obtain ⟨d, found, hrun⟩ := hreturns (by decide +kernel)
  obtain ⟨r, hr, -, hr'⟩ := howned doorAndFrame borrowedSlam [] rfl
  refine ⟨r, d, found, hrun, hr, hr', by decide +kernel, by decide +kernel, ?_⟩
  rw [(hfound d found hrun).1]
  decide +kernel

end Collection

end ClassReference
