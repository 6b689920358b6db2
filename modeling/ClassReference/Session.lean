import ClassReference.Classification
import ClassReference.Comment.Scanner
import ClassReference.Hierarchy.Resolution
import ClassReference.Model

/-!
# Sessions

A session collects sources and builds models from what it has collected so far. Its catalogue holds
one record for each class definition; building a model fills in those records, and the model shows
them. So a model is a view of the session: it says which records are shown, and shows them as they
are at the moment. A build that runs into a cycle keeps the view of the last model, while its
records hold what was resolved up to the cycle.
-/

namespace ClassReference

/-- What a session has collected, and its view of it. -/
structure Session where
  /-- How comments are classified. -/
  classifier : Classifier := {}
  /-- How the hierarchy is resolved. -/
  rules : Hierarchy.Rules := {}
  /-- What has been collected. -/
  catalog : Catalog := {}
  /-- The positions in the catalogue of the classes that the last model shows. -/
  shown : List Nat := []
  /-- The packages of the last model. -/
  tree : Package := {}
deriving Repr

namespace Session

/-- The last model, with its classes as they are at the moment. -/
def model (s : Session) : Model where
  classes := s.shown.filterMap (s.catalog.classes[·]?)
  tree := s.tree

/-- Collects entities. -/
def add (s : Session) (found : Catalog) : Session :=
  { s with catalog := s.catalog ++ found }

/-- Collects the entities of a file, and reports which they are. -/
def addComments (s : Session) (comments : List Comment) (fileName : String) :
    Logged (Session × Catalog) := do
  let found ← s.classifier.catalog comments fileName
  return (s.add found, found)

/-- Collects the entities of a source text, and reports which they are. -/
def addSource (s : Session) (source fileName : String) : Logged (Session × Catalog) :=
  s.addComments (Comment.scan source) fileName

/-- Reports the size of a model and of what was collected. -/
def reportModel (classes : Nat) (c : Catalog) : Logged Unit :=
  Logged.tell .info Log.building
    ("Built model: " ++ toString classes ++ " classes, " ++ toString c.members.cfgs.length
      ++ " configs, " ++ toString c.members.properties.length ++ " properties, "
      ++ toString c.members.methods.length ++ " methods, " ++ toString c.members.events.length
      ++ " events collected")

/-- Builds a model of everything collected so far. -/
def build (s : Session) : Logged (Session × Except Cycle Model) := do
  let r ← Hierarchy.resolve s.rules s.catalog
  let resolved := { s with catalog := s.catalog.update r.slots }
  match r.outcome with
  | .error cycle => return (resolved, .error cycle)
  | .ok classes =>
    let built := { resolved with
      shown := r.listedSlots.map (·.position)
      tree := Package.ofClasses classes }
    reportModel classes.length s.catalog
    return (built, .ok built.model)

end Session

end ClassReference
