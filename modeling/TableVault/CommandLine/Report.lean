import TableVault.Inspect
import TableVault.Text.PrettyJson

namespace TableVault.CommandLine

/-!
# Reports

* `tablesText`, `keysText` and `namespacesText` — what an inspection found, as lines;
* `tablesJson`, `keysJson` and `namespacesJson` — the same as JSON documents;
* `inFormat` — one of the two: JSON if the format is called so, lines for every other
  format.
-/

/-- A text followed by a line break. -/
def line (text : String) : String := text ++ "\n"

/-- The width of the column of names, in characters. -/
def nameWidth : Nat := 32

/-- A name filled up with spaces to the width of its column. -/
def padded (name : String) : String :=
  name ++ String.ofList (List.replicate (nameWidth - name.toList.length) ' ')

/-- Lines one after another. -/
def lines (texts : List String) : String :=
  String.join (texts.map line)

/-- The report in a format. -/
def inFormat (format text : String) (json : Json) : String :=
  if format = "json" then line json.pretty else text

/-! ### Tables -/

/-- The tables of a namespace as lines. -/
def tablesText (r : Inspect.TablesReport) : String :=
  line ("Tables in " ++ r.namespacePath) ++
    (if r.tables.isEmpty then line "  (none)"
    else lines (r.tables.map fun t => "  " ++ padded t.name ++ " " ++ toString t.keys ++ " keys"))

/-- The tables of a namespace as a document. -/
def tablesJson (r : Inspect.TablesReport) : Json :=
  .object [("namespace", .text r.namespacePath),
    ("tables", .array (r.tables.map fun t =>
      .object [("name", .text t.name), ("keys", .number t.keys)]))]

/-! ### Keys -/

/-- The mark in front of a key. -/
def encryptedMark (encrypted : Bool) : String :=
  if encrypted then "[enc]" else "     "

/-- The keys of a table as lines. -/
def keysText (table : String) (keys : List Inspect.KeyInfo) : String :=
  line (toString keys.length ++ " keys in " ++ table) ++
    lines (keys.map fun k =>
      "  " ++ encryptedMark k.encrypted ++ " " ++ padded k.key ++ " " ++ toString k.size ++ " bytes")

/-- The keys of a table as a document. -/
def keysJson (keys : List Inspect.KeyInfo) : Json :=
  .array (keys.map fun k =>
    .object [("key", .text k.key), ("encrypted", .bool k.encrypted), ("size", .number k.size)])

/-! ### Namespaces -/

/-- What lies below a namespace as lines. -/
def namespacesText (r : Inspect.NamespacesReport) : String :=
  line ("Namespaces under " ++ r.namespacePath) ++ lines (r.namespaces.map ("  " ++ ·))

/-- What lies below a namespace as a document. -/
def namespacesJson (r : Inspect.NamespacesReport) : Json :=
  .object [("namespace", .text r.namespacePath),
    ("namespaces", .array (r.namespaces.map .text))]

end TableVault.CommandLine
