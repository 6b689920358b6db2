import ClassReference.FileTree

/-!
# The built-in template set

The files of the template set that comes with the program: the template of class pages, the parts
that it shares between its tables, the template of the tree page, a style sheet, and the document
that describes the set.
-/

namespace ClassReference.BuiltinSet

/-- The template of class pages. -/
def classTemplate : String :=
  "\x7b% from \"_macros.html.j2\" import params_list, owner_cell, summary %\x7d\n"
    ++ "<!DOCTYPE html>\n"
    ++ "<html>\n"
    ++ "<head>\n"
    ++ "  <meta charset=\"utf-8\">\n"
    ++ "  <title>\x7b\x7b cls.class_name \x7d\x7d</title>\n"
    ++ "  <link rel=\"stylesheet\" href=\"../resources/css/apidoc.css\">\n"
    ++ "</head>\n"
    ++ "<body>\n"
    ++ "<h1>\x7b\x7b cls.short_class_name \x7d\x7d <small>\x7b\x7b cls.class_name "
    ++ "\x7d\x7d</small></h1>\n"
    ++ "\n"
    ++ "\x7b% if cls.super_classes %\x7d\n"
    ++ "<ul class=\"hierarchy\">\n"
    ++ "\x7b% for ref in cls.super_classes %\x7d\n"
    ++ "\x7b% if model.get(ref.class_name) %\x7d\n"
    ++ "  <li><a href=\"\x7b\x7b ref.class_name \x7d\x7d.\x7b\x7b page_extension "
    ++ "\x7d\x7d\">\x7b\x7b ref.short_class_name \x7d\x7d</a></li>\n"
    ++ "\x7b% else %\x7d\n"
    ++ "  <li>\x7b\x7b ref.short_class_name \x7d\x7d</li>\n"
    ++ "\x7b% endif %\x7d\n"
    ++ "\x7b% endfor %\x7d\n"
    ++ "  <li><strong>\x7b\x7b cls.short_class_name \x7d\x7d</strong></li>\n"
    ++ "</ul>\n"
    ++ "\x7b% endif %\x7d\n"
    ++ "\n"
    ++ "<table class=\"meta\">\n"
    ++ "  <tr><th>Package</th><td>\x7b\x7b cls.package_name or \"(global)\" \x7d\x7d</td></tr>\n"
    ++ "  <tr><th>Defined in</th><td>\x7b\x7b cls.defined_in \x7d\x7d</td></tr>\n"
    ++ "  <tr><th>Class</th><td>\x7b\x7b cls.short_class_name \x7d\x7d\x7b% if cls.singleton %\x7d "
    ++ "(singleton)\x7b% endif %\x7d</td></tr>\n"
    ++ "\x7b% if cls.sub_classes %\x7d\n"
    ++ "  <tr><th>Subclasses</th><td>\n"
    ++ "  \x7b% for ref in cls.sub_classes %\x7d<a href=\"\x7b\x7b ref.class_name "
    ++ "\x7d\x7d.\x7b\x7b page_extension \x7d\x7d\">\x7b\x7b ref.short_class_name "
    ++ "\x7d\x7d</a>\x7b% if not loop.last %\x7d, \x7b% endif %\x7d\x7b% endfor %\x7d\n"
    ++ "  </td></tr>\n"
    ++ "\x7b% endif %\x7d\n"
    ++ "\x7b% if parent %\x7d\n"
    ++ "  <tr><th>Extends</th><td><a href=\"\x7b\x7b parent.class_name \x7d\x7d.\x7b\x7b "
    ++ "page_extension \x7d\x7d\">\x7b\x7b parent.class_name \x7d\x7d</a></td></tr>\n"
    ++ "\x7b% elif cls.parent_class_name %\x7d\n"
    ++ "  <tr><th>Extends</th><td>\x7b\x7b cls.parent_class_name \x7d\x7d</td></tr>\n"
    ++ "\x7b% endif %\x7d\n"
    ++ "</table>\n"
    ++ "\n"
    ++ "<div class=\"description\">\x7b\x7b cls.description.long \x7d\x7d</div>\n"
    ++ "\n"
    ++ "\x7b% if cls.has_constructor %\x7d\n"
    ++ "<h2>Constructor</h2>\n"
    ++ "<div>\x7b\x7b cls.constructor_description.long if cls.constructor_description else \"\" "
    ++ "\x7d\x7d</div>\n"
    ++ "\x7b\x7b params_list(cls.params) \x7d\x7d\n"
    ++ "\x7b% endif %\x7d\n"
    ++ "\n"
    ++ "\x7b% if cls.cfgs %\x7d\n"
    ++ "<h2>Config Options</h2>\n"
    ++ "<table class=\"members\">\n"
    ++ "  <tr><th>Name</th><th>Description</th><th>Defined by</th></tr>\n"
    ++ "\x7b% for cfg in cls.cfgs %\x7d\n"
    ++ "  <tr id=\"\x7b\x7b cls.class_name \x7d\x7d-\x7b\x7b cfg.name \x7d\x7d\"\x7b% if "
    ++ "cfg.class_name != cls.class_name %\x7d class=\"inherited\"\x7b% endif %\x7d>\n"
    ++ "    <td><code>\x7b\x7b cfg.name \x7d\x7d</code>\x7b% if cfg.type %\x7d : \x7b\x7b cfg.type "
    ++ "\x7d\x7d\x7b% endif %\x7d</td>\n"
    ++ "    <td>\x7b\x7b cfg.description.long \x7d\x7d</td>\n"
    ++ "    <td>\x7b\x7b owner_cell(cfg, cls) \x7d\x7d</td>\n"
    ++ "  </tr>\n"
    ++ "\x7b% endfor %\x7d\n"
    ++ "</table>\n"
    ++ "\x7b% endif %\x7d\n"
    ++ "\n"
    ++ "\x7b% if cls.properties %\x7d\n"
    ++ "<h2>Public Properties</h2>\n"
    ++ "<table class=\"members\">\n"
    ++ "  <tr><th>Name</th><th>Description</th><th>Defined by</th></tr>\n"
    ++ "\x7b% for prop in cls.properties %\x7d\n"
    ++ "  <tr id=\"\x7b\x7b cls.class_name \x7d\x7d-\x7b\x7b prop.name \x7d\x7d\"\x7b% if "
    ++ "prop.class_name != cls.class_name %\x7d class=\"inherited\"\x7b% endif %\x7d>\n"
    ++ "    <td><code>\x7b\x7b prop.name \x7d\x7d</code>\x7b% if prop.type %\x7d : \x7b\x7b "
    ++ "prop.type \x7d\x7d\x7b% endif %\x7d</td>\n"
    ++ "    <td>\x7b\x7b prop.description.long \x7d\x7d</td>\n"
    ++ "    <td>\x7b\x7b owner_cell(prop, cls) \x7d\x7d</td>\n"
    ++ "  </tr>\n"
    ++ "\x7b% endfor %\x7d\n"
    ++ "</table>\n"
    ++ "\x7b% endif %\x7d\n"
    ++ "\n"
    ++ "\x7b% if cls.methods %\x7d\n"
    ++ "<h2>Public Methods</h2>\n"
    ++ "<table class=\"members\">\n"
    ++ "  <tr><th>Method</th><th>Description</th><th>Defined by</th></tr>\n"
    ++ "\x7b% for method in cls.methods %\x7d\n"
    ++ "  <tr id=\"\x7b\x7b cls.class_name \x7d\x7d-\x7b\x7b method.name \x7d\x7d\"\x7b% if "
    ++ "method.class_name != cls.class_name %\x7d class=\"inherited\"\x7b% endif %\x7d>\n"
    ++ "    <td><code>\x7b% if method.is_static %\x7dstatic \x7b% endif %\x7d\x7b\x7b method.name "
    ++ "\x7d\x7d(\x7b% for p in method.params %\x7d\x7b\x7b p.name \x7d\x7d\x7b% if not loop.last "
    ++ "%\x7d, \x7b% endif %\x7d\x7b% endfor %\x7d)</code>\x7b% if method.return_type %\x7d : "
    ++ "\x7b\x7b method.return_type \x7d\x7d\x7b% endif %\x7d</td>\n"
    ++ "    <td>\n"
    ++ "      <div class=\"short\">\x7b\x7b summary(method.description) \x7d\x7d</div>\n"
    ++ "      <div class=\"long\">\x7b\x7b method.description.long \x7d\x7d</div>\n"
    ++ "      \x7b\x7b params_list(method.params) \x7d\x7d\n"
    ++ "      \x7b% if method.return_description %\x7d<div class=\"returns\">Returns: \x7b\x7b "
    ++ "method.return_description.long \x7d\x7d</div>\x7b% endif %\x7d\n"
    ++ "    </td>\n"
    ++ "    <td>\x7b\x7b owner_cell(method, cls) \x7d\x7d</td>\n"
    ++ "  </tr>\n"
    ++ "\x7b% endfor %\x7d\n"
    ++ "</table>\n"
    ++ "\x7b% endif %\x7d\n"
    ++ "\n"
    ++ "\x7b% if cls.events %\x7d\n"
    ++ "<h2>Public Events</h2>\n"
    ++ "<table class=\"members\">\n"
    ++ "  <tr><th>Event</th><th>Description</th><th>Defined by</th></tr>\n"
    ++ "\x7b% for event in cls.events %\x7d\n"
    ++ "  <tr id=\"\x7b\x7b cls.class_name \x7d\x7d-\x7b\x7b event.name \x7d\x7d\"\x7b% if "
    ++ "event.class_name != cls.class_name %\x7d class=\"inherited\"\x7b% endif %\x7d>\n"
    ++ "    <td><code>\x7b\x7b event.name \x7d\x7d</code> : (\x7b% for p in event.params "
    ++ "%\x7d\x7b\x7b p.name \x7d\x7d\x7b% if not loop.last %\x7d, \x7b% endif %\x7d\x7b% endfor "
    ++ "%\x7d)</td>\n"
    ++ "    <td>\n"
    ++ "      <div class=\"short\">\x7b\x7b summary(event.description) \x7d\x7d</div>\n"
    ++ "      <div class=\"long\">\x7b\x7b event.description.long \x7d\x7d</div>\n"
    ++ "      \x7b\x7b params_list(event.params) \x7d\x7d\n"
    ++ "    </td>\n"
    ++ "    <td>\x7b\x7b owner_cell(event, cls) \x7d\x7d</td>\n"
    ++ "  </tr>\n"
    ++ "\x7b% endfor %\x7d\n"
    ++ "</table>\n"
    ++ "\x7b% endif %\x7d\n"
    ++ "</body>\n"
    ++ "</html>\n"

/-- The parts that the template of class pages shares between its tables. -/
def parts : String :=
  "\x7b% macro params_list(params) %\x7d\n"
    ++ "\x7b% if params %\x7d\n"
    ++ "<ul class=\"params\">\n"
    ++ "\x7b% for p in params %\x7d\n"
    ++ "  <li><code>\x7b\x7b p.name \x7d\x7d</code>\x7b% if p.type %\x7d : \x7b\x7b p.type "
    ++ "\x7d\x7d\x7b% endif %\x7d\x7b% if p.optional %\x7d (optional)\x7b% endif %\x7d \x7b\x7b "
    ++ "p.description.long \x7d\x7d</li>\n"
    ++ "\x7b% endfor %\x7d\n"
    ++ "</ul>\n"
    ++ "\x7b% endif %\x7d\n"
    ++ "\x7b% endmacro %\x7d\n"
    ++ "\n"
    ++ "\x7b% macro owner_cell(member, cls) %\x7d\n"
    ++ "\x7b% if member.class_name == cls.class_name %\x7d\x7b\x7b cls.short_class_name "
    ++ "\x7d\x7d\x7b% else %\x7d<a href=\"\x7b\x7b member.class_name \x7d\x7d.\x7b\x7b "
    ++ "page_extension \x7d\x7d\">\x7b\x7b member.short_class_name \x7d\x7d</a>\x7b% endif %\x7d\n"
    ++ "\x7b% endmacro %\x7d\n"
    ++ "\n"
    ++ "\x7b% macro summary(description) %\x7d\x7b\x7b description.short if description.short is "
    ++ "not none else description.long \x7d\x7d\x7b% endmacro %\x7d\n"

/-- The template of the tree page. -/
def treeTemplate : String :=
  "\x7b% macro render_package(node) %\x7d\n"
    ++ "<ul>\n"
    ++ "\x7b% for package in node.packages %\x7d\n"
    ++ "  <li class=\"package\">\x7b\x7b package.name \x7d\x7d\x7b\x7b render_package(package) "
    ++ "\x7d\x7d</li>\n"
    ++ "\x7b% endfor %\x7d\n"
    ++ "\x7b% for ref in node.classes %\x7d\n"
    ++ "  <li class=\"class\"><a href=\"\x7b\x7b class_target_dir \x7d\x7d/\x7b\x7b ref.class_name "
    ++ "\x7d\x7d.\x7b\x7b page_extension \x7d\x7d\">\x7b\x7b ref.short_class_name "
    ++ "\x7d\x7d</a></li>\n"
    ++ "\x7b% endfor %\x7d\n"
    ++ "</ul>\n"
    ++ "\x7b% endmacro %\x7d\n"
    ++ "<!DOCTYPE html>\n"
    ++ "<html>\n"
    ++ "<head>\n"
    ++ "  <meta charset=\"utf-8\">\n"
    ++ "  <title>API Documentation</title>\n"
    ++ "  <link rel=\"stylesheet\" href=\"resources/css/apidoc.css\">\n"
    ++ "</head>\n"
    ++ "<body>\n"
    ++ "<h1>API Documentation</h1>\n"
    ++ "<p>\x7b\x7b model.classes | length \x7d\x7d classes</p>\n"
    ++ "<div class=\"tree\">\n"
    ++ "\x7b\x7b render_package(tree) \x7d\x7d\n"
    ++ "</div>\n"
    ++ "</body>\n"
    ++ "</html>\n"

/-- The style sheet. -/
def styleSheet : String :=
  "body \x7b font-family: sans-serif; margin: 2em; color: #222; \x7d\n"
    ++ "h1 small \x7b color: #666; font-weight: normal; \x7d\n"
    ++ "table.members \x7b border-collapse: collapse; width: 100%; margin-bottom: 2em; \x7d\n"
    ++ "table.members th, table.members td \x7b border-bottom: 1px solid #ddd; padding: 4px 8px; "
    ++ "text-align: left; vertical-align: top; \x7d\n"
    ++ "tr.inherited td \x7b color: #555; \x7d\n"
    ++ ".hierarchy li \x7b list-style: none; \x7d\n"
    ++ ".tree ul \x7b padding-left: 1.2em; \x7d\n"

/-- The text of the description of the set. -/
def descriptionText : String :=
  "class:\n"
    ++ "  template: class.html.j2\n"
    ++ "  target_dir: output\n"
    ++ "tree:\n"
    ++ "  template: tree.html.j2\n"
    ++ "  target_file: index.html\n"
    ++ "resources:\n"
    ++ "  - src: resources\n"
    ++ "    dst: resources\n"

/-- The description of the set. -/
def description : Value :=
  .map [
    ("class", .map [("template", .str "class.html.j2"), ("target_dir", .str "output")]),
    ("tree", .map [("template", .str "tree.html.j2"), ("target_file", .str "index.html")]),
    ("resources", .list [.map [("src", .str "resources"), ("dst", .str "resources")]])]

/-- The name of the file with the shared parts. -/
def partsName : String := "_macros.html.j2"

/-- The files and directories of the set, as seen from its directory. -/
def entries : List (Location × Node) := [
  ([], .directory),
  ([partsName], .file (.text parts)),
  (["class.html.j2"], .file (.text classTemplate)),
  (["resources"], .directory),
  (["resources", "css"], .directory),
  (["resources", "css", "apidoc.css"], .file (.text styleSheet)),
  (["template.yaml"], .file (.document description descriptionText)),
  (["tree.html.j2"], .file (.text treeTemplate))]

/-- The content of a file of the set. -/
def file? (name : String) : Option Content :=
  match entries.find? (·.1 == (Path.ofString name).parts) with
  | some (_, .file content) => some content
  | _ => none

/-- Puts the set where paths to it lead. -/
def install (t : FileTree) : FileTree :=
  entries.foldl (fun t e => t.put (FileTree.builtinLocation ++ e.1) e.2) t

end ClassReference.BuiltinSet
