import ClassReference.Proofs.History

/-!
# Proofs: the class definitions that a collection holds

Which classes a collection has definitions of, and which of these are private, can be read off the
comments that were given to it (`signatures_held`): a class comment contributes one definition, and
no other comment contributes any. A model that is built shows what resolution lists of the collected
definitions (`answer_build`).
-/

namespace ClassReference

/-- The body of a comment as description and tags. -/
def Comment.block (c : Comment) : DocBlock :=
  DocBlock.read c.body

/-- The comment documents the class with the given full name. -/
def Comment.Defines (c : Comment) (full : String) : Prop :=
  c.block.declared.head?.map (·.name) = some full

/-- The comment carries one of the flags that exclude what it documents. -/
def Comment.IsPrivate (c : Comment) : Prop :=
  c.block.has .secret = true ∨ c.block.has .ignored = true

theorem Comment.isPrivate_iff (c : Comment) : c.IsPrivate ↔ c.block.excluded = true := by
  rw [IsPrivate, DocBlock.excluded, Bool.or_eq_true]

/-- The class definition among entities that an entity is. -/
def Entity.class? : Entity → Option ClassEntry
  | .ofClass e => some e
  | _ => none

/-- The full name of a class definition, and whether it is excluded. -/
def ClassEntry.signature (e : ClassEntry) : String × Bool :=
  (e.name.full, e.excluded)

/-- The signature of the class that a comment documents. -/
def Comment.signature? (c : Comment) : Option (String × Bool) :=
  c.block.declared.head?.map fun title => (title.name, c.block.excluded)

/-! ## One comment -/

namespace Classifier

variable (cl : Classifier)

theorem value_membersOrNone {α : Type} (b : DocBlock) (kind : EntityKind) (ctx : Context)
    (wrap : Member α → Entity) (ms : List (Member α)) :
    (membersOrNone b kind ctx wrap ms).value =
      ⟨kind, if b.excluded then [] else ms.map wrap, ctx⟩ := by
  unfold membersOrNone
  cases b.excluded <;> rfl

/-- A comment that documents no class contributes members of one kind or, if it is private, nothing.
The context stays. -/
theorem memberComment_cases (b : DocBlock) (c : Comment) (ctx : Context) :
    ∃ kind es, (cl.memberComment b c ctx).value = ⟨kind, if b.excluded then [] else es, ctx⟩ ∧
      ((∃ title, b.events.head? = some title ∧ kind = .event ∧
        es = [.event (cl.event b title ctx).value]) ∨
        (kind = .cfg ∧
          es = (b.cfgs.map fun item =>
            (cl.cfg b item (b.owner ctx) (b.has .hidden) (b.has .static)).value).map .cfg) ∨
        (kind = .method ∧ es = [.method (cl.method b c ctx).value]) ∨
        (kind = .property ∧ es = [.property (cl.property b c ctx).value])) := by
  unfold memberComment
  split
  · rename_i title _ hevent
    exact ⟨_, _, value_membersOrNone b _ ctx _ _, Or.inl ⟨title, hevent, rfl, rfl⟩⟩
  · refine ⟨_, _, value_membersOrNone b _ ctx _ _, Or.inr (Or.inl ⟨rfl, ?_⟩)⟩
    rw [Logged.value_mapM]
  · exact ⟨_, _, value_membersOrNone b _ ctx _ _, Or.inr (Or.inr (Or.inl ⟨rfl, rfl⟩))⟩
  · exact ⟨_, _, value_membersOrNone b _ ctx _ _, Or.inr (Or.inr (Or.inr ⟨rfl, rfl⟩))⟩

theorem signature_classEntry (b : DocBlock) (title : Titled) (ctx : Context) :
    (cl.classEntry b title ctx).value.signature = (title.name, b.excluded) := by
  simp only [classEntry, Logged.value_bind]
  split <;> rfl

theorem classes_classComment (b : DocBlock) (title : Titled) (ctx : Context) :
    (cl.classComment b title ctx).value.entities.filterMap Entity.class? =
      [(cl.classEntry b title ctx).value] := by
  have hcfgs : ∀ cfgs : List Cfg, (cfgs.map Entity.cfg).filterMap Entity.class? = [] := by
    intro cfgs
    simp [List.filterMap_map, Function.comp_def, Entity.class?]
  simp only [classComment, Logged.value_bind, Logged.value_pure, List.filterMap_cons, hcfgs,
    Entity.class?]

theorem classify_class {c : Comment} {title : Titled} (h : c.block.declared.head? = some title)
    (ctx : Context) : cl.classify c ctx = cl.classComment c.block title ctx := by
  unfold Comment.block at h
  simp only [classify, h, Comment.block]

theorem classify_member {c : Comment} (h : c.block.declared.head? = none) (ctx : Context) :
    cl.classify c ctx = cl.memberComment c.block c ctx := by
  unfold Comment.block at h
  simp only [classify, h, Comment.block]

/-- A comment contributes the definition of the class that it documents, and no other. -/
theorem signatures_classify (c : Comment) (ctx : Context) :
    ((cl.classify c ctx).value.entities.filterMap Entity.class?).map (·.signature) =
      c.signature?.toList := by
  unfold Comment.signature?
  cases h : c.block.declared.head? with
  | some title =>
    rw [cl.classify_class h, classes_classComment, List.map_singleton, signature_classEntry]
    rfl
  | none =>
    obtain ⟨kind, es, hvalue, hes⟩ := cl.memberComment_cases c.block c ctx
    have hnone : es.filterMap Entity.class? = [] := by
      rw [List.filterMap_eq_nil_iff]
      rcases hes with ⟨title, -, -, rfl⟩ | ⟨-, rfl⟩ | ⟨-, rfl⟩ | ⟨-, rfl⟩ <;> simp [Entity.class?]
    rw [cl.classify_member h, hvalue]
    cases c.block.excluded with
    | true => rfl
    | false => simp [hnone]

theorem value_classifyAll_cons (c : Comment) (cs : List Comment) (ctx : Context) :
    (cl.classifyAll (c :: cs) ctx).value =
      (cl.classify c ctx).value :: (cl.classifyAll cs (cl.classify c ctx).value.context).value :=
  rfl

theorem steps_classifyAll_cons (c : Comment) (cs : List Comment) (ctx : Context) :
    (cl.classifyAll (c :: cs) ctx).steps =
      (cl.classify c ctx).steps ++ (cl.classifyAll cs (cl.classify c ctx).value.context).steps := by
  change _ ++ (_ ++ []) = _
  rw [List.append_nil]

theorem signatures_classifyAll (cs : List Comment) (ctx : Context) :
    (((cl.classifyAll cs ctx).value.flatMap (·.entities)).filterMap Entity.class?).map
      (·.signature) =
      cs.filterMap Comment.signature? := by
  induction cs generalizing ctx with
  | nil => rfl
  | cons c cs ih =>
    rw [value_classifyAll_cons, List.flatMap_cons, List.filterMap_append, List.map_append,
      signatures_classify, ih]
    cases hc : c.signature? <;> simp [hc]

end Classifier

/-- The class definitions of a catalogue are those among its entities. -/
theorem Catalog.classes_ofEntities (es : List Entity) :
    (Catalog.ofEntities es).classes = es.filterMap Entity.class? := by
  have hfold : ∀ c : Catalog, (es.foldl Catalog.add c).classes =
      c.classes ++ es.filterMap Entity.class? := by
    induction es with
    | nil => intro c; simp
    | cons e es ih =>
      intro c
      rw [List.foldl_cons, ih]
      cases e <;> simp [Catalog.add, Entity.class?, List.filterMap_cons]
  exact hfold {}

/-! ## Work that relies on settings -/

/-- Work is done if none of its steps uses one of the unusable settings. -/
theorem Logged.relying_value_eq_ok {α : Type} {unusable : List String} {x : Logged α} {a : α} :
    (x.relying unusable).value = .ok a ↔ (∀ s ∈ x.steps, s.reliedOn? unusable = none) ∧
    x.value = a := by
  unfold relying
  rw [← List.findSome?_eq_none_iff]
  cases x.steps.findSome? (·.reliedOn? unusable) with
  | some key => simp
  | none => simp

namespace Collection

/-! ## One addition -/

theorem contribution_eq_ok {c : Collection} {a : Addition} {found : Catalog} :
    c.contribution a = .ok found ↔
      (∀ s ∈ (c.session.classifier.classifyAll a.file.1 { fileName := a.file.2 }).steps,
        s.reliedOn? c.config.unusable = none) ∧
      Catalog.ofEntities
        ((c.session.classifier.classifyAll a.file.1 { fileName := a.file.2 }).value.flatMap
        (·.entities)) = found := by
  constructor
  · intro h
    unfold contribution at h
    split at h
    · rename_i results hr
      obtain ⟨hsteps, rfl⟩ := Logged.relying_value_eq_ok.mp hr
      exact ⟨hsteps, Except.ok.inj h⟩
    · cases h
  · rintro ⟨hsteps, rfl⟩
    unfold contribution
    rw [Logged.relying_value_eq_ok.mpr ⟨hsteps, rfl⟩]

/-- The comments of an addition, unless it cannot be collected. -/
def commentsOf (c : Collection) (a : Addition) : List Comment :=
  match c.contribution a with
  | .ok _ => a.file.1
  | .error _ => []

theorem signatures_next_add (c : Collection) (a : Addition) :
    (c.next (.add a)).1.session.catalog.classes.map (·.signature) =
      c.session.catalog.classes.map (·.signature) ++
        (c.commentsOf a).filterMap Comment.signature? := by
  simp only [next, commentsOf]
  cases h : c.contribution a with
  | error e => simp
  | ok found =>
    have hfound := (contribution_eq_ok.mp h).2
    change (c.session.catalog.classes ++ found.classes).map _ = _
    rw [List.map_append, ← hfound, Catalog.classes_ofEntities, Classifier.signatures_classifyAll]

theorem commentsOf_next (c : Collection) (call : Call) (a : Addition) :
    (c.next call).1.commentsOf a = c.commentsOf a := by
  unfold commentsOf
  rw [contribution_next]

/-! ## A whole history -/

/-- The comments that were collected in a history. -/
def commentsIn (config : Config) (history : List Call) : List Comment :=
  (additionsOf history).flatMap (start config).commentsOf

/-- What a collection holds after the additions of a history. -/
def held (config : Config) (history : List Call) : Catalog :=
  ((start config).nextAll ((additionsOf history).map .add)).1.session.catalog

theorem held_singleton {config : Config} {a : Addition} {found : Catalog}
    (h : (start config).contribution a = .ok found) : held config [.add a] = found := by
  simp only [held, additionsOf, List.filterMap_cons, List.filterMap_nil, List.map_cons,
    List.map_nil, nextAll, next, h]
  rfl

theorem signatures_nextAll (c : Collection) (additions : List Addition) :
    (c.nextAll (additions.map .add)).1.session.catalog.classes.map (·.signature) =
      c.session.catalog.classes.map (·.signature) ++
        (additions.flatMap c.commentsOf).filterMap Comment.signature? := by
  induction additions generalizing c with
  | nil => simp [nextAll]
  | cons a additions ih =>
    have hcomments : (c.next (.add a)).1.commentsOf = c.commentsOf :=
      funext (c.commentsOf_next (.add a))
    rw [List.map_cons, nextAll, ih, signatures_next_add, hcomments, List.flatMap_cons,
      List.filterMap_append, List.append_assoc]

/-- The definitions that are held are those of the class comments that were collected. -/
theorem signatures_held (config : Config) (history : List Call) :
    (held config history).classes.map (·.signature) =
      (commentsIn config history).filterMap Comment.signature? :=
  signatures_nextAll (start config) (additionsOf history)

theorem rules_nextAll (c : Collection) (additions : List Addition) :
    (c.nextAll (additions.map .add)).1.session.rules = c.session.rules := by
  induction additions generalizing c with
  | nil => rfl
  | cons a additions ih =>
    have hnext : (c.next (.add a)).1.session.rules = c.session.rules := by
      rw [next]
      cases c.contribution a <;> rfl
    rw [List.map_cons, nextAll, ih, hnext]

/-- A build answers with the listed classes of all that was collected. -/
theorem answer_build (config : Config) (history : List Call) (w : World) :
    answer config history .build w = .built ((Hierarchy.resolve config.hierarchy.rules
      (held config history)).value.outcome.map fun classes => ⟨classes,
        Package.ofClasses classes⟩) := by
  rw [answer_eq, ((Agrees.refl (start config)).nextAll history).answer .build]
  change Answer.built (Session.build _).value.2 = _
  rw [Session.build_result, rules_nextAll]
  rfl

theorem listed_of_answer {config : Config} {history : List Call} {w : World} {model : Model}
    (h : answer config history .build w = .built (.ok model)) :
    (Hierarchy.resolve config.hierarchy.rules (held config history)).value.outcome =
      .ok model.classes ∧
      model.tree = Package.ofClasses model.classes := by
  rw [answer_build] at h
  cases hr : (Hierarchy.resolve config.hierarchy.rules (held config history)).value.outcome with
  | error cycle => rw [hr] at h; cases h
  | ok classes =>
    rw [hr] at h
    obtain rfl := Except.ok.inj (Answer.built.inj h)
    exact ⟨rfl, rfl⟩

/-! ## Private classes -/

/-- All collected definitions of the class with the given full name are private or ignored. -/
def KeptPrivate (config : Config) (history : List Call) (full : String) : Prop :=
  ∀ c ∈ commentsIn config history, c.Defines full → c.IsPrivate

theorem exists_held_iff (config : Config) (history : List Call) (full : String) (excluded : Bool) :
    (∃ e ∈ (held config history).classes, e.name.full = full ∧ e.excluded = excluded) ↔
      ∃ c ∈ commentsIn config history, c.Defines full ∧ c.block.excluded = excluded := by
  have hleft : (∃ e ∈ (held config history).classes, e.name.full = full ∧ e.excluded = excluded) ↔
      (full, excluded) ∈ (held config history).classes.map (·.signature) := by
    simp [ClassEntry.signature]
  rw [hleft, signatures_held, List.mem_filterMap]
  refine exists_congr fun c => and_congr_right fun _ => ?_
  unfold Comment.signature? Comment.Defines
  cases c.block.declared.head? <;> simp

/-- A class is kept private if no definition of it that is held is public. -/
theorem keptPrivate_iff {config : Config} {history : List Call} {full : String} :
    KeptPrivate config history full ↔ ∀ e ∈ (held config history).classes, e.name.full = full →
    e.excluded = true := by
  have hpublic := exists_held_iff config history full false
  constructor
  · intro h e he hn
    by_contra hx
    obtain ⟨c, hc, hdefines, hpub⟩ := hpublic.mp ⟨e, he, hn, by simpa using hx⟩
    have := (c.isPrivate_iff).mp (h c hc hdefines)
    rw [hpub] at this
    cases this
  · intro h c hc hdefines
    rw [Comment.isPrivate_iff]
    by_contra hx
    obtain ⟨e, he, hn, hpub⟩ := hpublic.mpr ⟨c, hc, hdefines, by simpa using hx⟩
    rw [h e he hn] at hpub
    cases hpub

/-- A model lists a class exactly if a definition of it is public. -/
theorem listed_iff_not_keptPrivate {config : Config} {history : List Call} {w : World}
    {model : Model} (h : answer config history .build w = .built (.ok model)) (full : String) :
    (∃ e ∈ model.classes, e.name.full = full) ↔ ¬ KeptPrivate config history full := by
  have hfind := Hierarchy.find?_listed (listed_of_answer h).1 full
  have hleft : (∃ e ∈ model.classes, e.name.full = full) ↔
      (model.classes.find? (·.name.full == full)).isSome = true := by
    simp [List.find?_isSome]
  have hright : (¬ KeptPrivate config history full) ↔
      ((held config history).classes.find? fun e => e.name.full == full && !e.excluded).isSome =
      true := by
    rw [keptPrivate_iff]
    simp [List.find?_isSome]
  rw [hleft, hright, ← Option.isSome_map, hfind, Option.isSome_map]

end Collection

end ClassReference
