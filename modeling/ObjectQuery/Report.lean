import ObjectQuery.Schema.Build

/-! The schema of reports of continuous integration: revisions, their checkouts, the builds of a
checkout and the tests of a build. -/
namespace ObjectQuery.Report

def typed (type : String) (more : List (String × Json)) : Json :=
  .object (("type", .str type) :: more)

def text : Json := typed "string" []
def flag : Json := typed "boolean" []
def anything : Json := typed "object" []
def link : Json := typed "string" [("format", .str "uri")]
def time : Json := typed "string" [("format", .str "date-time")]
def excerpt : Json := typed "string" [("maxLength", .nat 16384)]
def amount : Json := typed "number" [("minimum", .nat 0)]
def matching (expression : String) : Json := typed "string" [("pattern", .str expression)]
def oneOf (values : List String) : Json := typed "string" [("enum", .texts values)]
def listOf (items : Json) : Json := typed "array" [("items", items)]

/-- The origin of an object, a colon, and what tells the origin's objects apart. -/
def objectId : Json := matching "^[a-z0-9_]+:.*$"
def origin : Json := matching "^[a-z0-9_]+$"
def commitHash : Json := matching "^[0-9a-f]\x7b12,40\x7d$"
def patchsetHash : Json := matching "^([0-9a-f]\x7b64\x7d)?$"

/-- A file with its address. -/
def resource : Json :=
  typed "object" [("properties", .object [("url", link), ("name", text)]),
    ("required", .texts ["url", "name"]), ("additionalProperties", .bool false)]

def describe (fields : List (String × Json)) (required idFields : List String)
    (children : List (String × List String)) : TypeDescription :=
  ⟨.ofList fields, .ofList required, idFields, .ofList children⟩

/-- A type with one ID field, to which all its children refer by the same field of theirs. -/
def describeParent (fields : List (String × Json)) (required : List String)
    (idField refField : String) (children : List String) : TypeDescription :=
  describe fields required [idField] (children.map fun name => (name, [refField]))

def revision : TypeDescription :=
  describe
    [("git_commit_hash", commitHash),
      ("patchset_hash", patchsetHash),
      ("patchset_files", listOf resource),
      ("git_commit_name", text),
      ("contacts", listOf text)]
    [] ["git_commit_hash", "patchset_hash"]
    [("checkout", ["git_commit_hash", "patchset_hash"])]

def checkout : TypeDescription :=
  describe
    [("id", objectId),
      ("git_commit_hash", commitHash),
      ("patchset_hash", patchsetHash),
      ("origin", origin),
      ("git_repository_url", link),
      ("git_repository_branch", text),
      ("tree_name", text),
      ("message_id", text),
      ("start_time", time),
      ("log_url", link),
      ("log_excerpt", excerpt),
      ("comment", text),
      ("valid", flag),
      ("misc", anything)]
    ["id", "origin"] ["id"]
    [("build", ["checkout_id"])]

def build : TypeDescription :=
  describe
    [("id", objectId),
      ("checkout_id", objectId),
      ("origin", origin),
      ("start_time", time),
      ("duration", amount),
      ("architecture", text),
      ("command", text),
      ("compiler", text),
      ("input_files", listOf anything),
      ("output_files", listOf anything),
      ("config_name", text),
      ("config_url", link),
      ("log_url", link),
      ("log_excerpt", excerpt),
      ("comment", text),
      ("valid", flag),
      ("misc", anything)]
    ["id", "origin", "checkout_id"] ["id"]
    [("test", ["build_id"])]

def test : TypeDescription :=
  describe
    [("id", objectId),
      ("build_id", objectId),
      ("origin", origin),
      ("path", matching "^[.a-zA-Z0-9_-]*$"),
      ("environment_comment", text),
      ("environment_misc", anything),
      ("status", oneOf ["FAIL", "ERROR", "MISS", "PASS", "DONE", "SKIP"]),
      ("waived", flag),
      ("start_time", time),
      ("duration", amount),
      ("output_files", listOf anything),
      ("log_url", link),
      ("log_excerpt", excerpt),
      ("comment", text),
      ("misc", anything)]
    ["id", "origin", "build_id"] ["id"]
    []

def description : Description :=
  .ofList [("revision", revision), ("checkout", checkout), ("build", build), ("test", test)]

def schema : Except SchemaFault ObjectQuery.Schema := ObjectQuery.Schema.ofDescription description

end ObjectQuery.Report
