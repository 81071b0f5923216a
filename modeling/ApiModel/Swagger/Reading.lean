import ApiModel.Swagger.SchemaReading

namespace ApiModel

def Value.readNode {α : Type} (kind : String) (read : Entries → Checked α) (v : Value) : Checked α :=
  match v.entries? with
  | some m => Entries.readWhole m (read m)
  | none => .fail (.notNode kind)

def Value.readNodes {α : Type} (read : Value → Checked α) (v : Value) : Checked (Table α) :=
  match v.entries? with
  | some m => Entries.readTable read m
  | none => .fail .notMapping

def Value.readNodesWithoutExtensions {α : Type} (read : Value → Checked α) (v : Value) :
    Checked (Table α) :=
  match v.entries? with
  | some m =>
    if m.hasLongKey then .fail .tooManyDigits
    else Entries.readTable read (Entries.dropExtensions m)
  | none => .fail .notMapping

def Value.readNodesOrNull {α : Type} (read : Value → Checked α) (v : Value) :
    Checked (Table α) :=
  if v.isNull then .ok .empty else v.readNodes read

def Value.readAny (v : Value) : Checked Str :=
  match v.text? with
  | some s => .ok s
  | none => .fail .tooManyDigits

def Value.readAnyOrNull (v : Value) : Checked Str := if v.isNull then .ok "" else v.readAny

namespace Parameter

def fields : List (List String) :=
  [["$ref", "ref"], ["name"], ["in", "location"], ["description"], ["required"], ["type"], ["format"],
    ["schema", "content_schema"]]

def ofEntries (room : Nat) (m : Entries) : Checked Parameter :=
  Parameter.mk <$> Entries.readText m ["$ref", "ref"]
    <*> Entries.readText m ["name"]
    <*> Entries.readText m ["in", "location"]
    <*> Entries.readText m ["description"]
    <*> Entries.read m ["required"] (.ok false) Value.readBool
    <*> Entries.readText m ["type"]
    <*> Entries.readText m ["format"]
    <*> Entries.read m ["schema", "content_schema"] (.ok none) (Value.readOptional (Schema.read (room - 1)))
    <*> Entries.readExtras m fields

def read (room : Nat) (v : Value) : Checked Parameter := v.readNode "Parameter" (ofEntries room)

end Parameter

namespace Response

def fields : List (List String) := [["$ref", "ref"], ["description"], ["schema", "content_schema"]]

def ofEntries (room : Nat) (m : Entries) : Checked Response :=
  Response.mk <$> Entries.readText m ["$ref", "ref"]
    <*> Entries.readText m ["description"]
    <*> Entries.read m ["schema", "content_schema"] (.ok none) (Value.readOptional (Schema.read (room - 1)))
    <*> Entries.readExtras m fields

def read (room : Nat) (v : Value) : Checked Response := v.readNode "Response" (ofEntries room)

end Response

namespace Operation

def fields : List (List String) :=
  [["operationId", "operation_id"], ["summary"], ["description"], ["tags"], ["parameters"],
    ["responses"]]

def ofEntries (room : Nat) (m : Entries) : Checked Operation :=
  Operation.mk <$> Entries.readText m ["operationId", "operation_id"]
    <*> Entries.readText m ["summary"]
    <*> Entries.readText m ["description"]
    <*> Entries.read m ["tags"] (.ok []) (Value.readList Value.readText)
    <*> Entries.read m ["parameters"] (.ok []) (Value.readList (Parameter.read room))
    <*> Entries.read m ["responses"] (.ok .empty) (Value.readNodesWithoutExtensions (Response.read room))
    <*> Entries.readExtras m fields

def read (room : Nat) (v : Value) : Checked Operation := v.readNode "Operation" (ofEntries room)

end Operation

namespace PathItem

def fields : List (List String) :=
  [["$ref", "ref"], ["get"], ["put"], ["post"], ["delete"], ["options"], ["head"], ["patch"],
    ["parameters"]]

def readVerb (room : Nat) (m : Entries) (verb : String) : Checked (Option Operation) :=
  Entries.read m [verb] (.ok none) (Value.readOptional (Operation.read (room - 1)))

def ofEntries (room : Nat) (m : Entries) : Checked PathItem :=
  PathItem.mk <$> Entries.readText m ["$ref", "ref"]
    <*> readVerb room m "get"
    <*> readVerb room m "put"
    <*> readVerb room m "post"
    <*> readVerb room m "delete"
    <*> readVerb room m "options"
    <*> readVerb room m "head"
    <*> readVerb room m "patch"
    <*> Entries.read m ["parameters"] (.ok []) (Value.readList (Parameter.read room))
    <*> Entries.readExtras m fields

def read (room : Nat) (v : Value) : Checked PathItem := v.readNode "PathItem" (ofEntries room)

end PathItem

namespace Info

def fields : List (List String) := [["title"], ["version"], ["description"]]

def ofEntries (m : Entries) : Checked Info :=
  Info.mk <$> Entries.require m "title" Value.readText
    <*> Entries.read m ["version"] (.ok "") Value.readAnyOrNull
    <*> Entries.readText m ["description"]
    <*> Entries.readExtras m fields

def read (v : Value) : Checked Info := v.readNode "Info" ofEntries

end Info

namespace Document

def fields : List (List String) := [["swagger"], ["info"], ["paths"], ["definitions"]]

def defaultVersion : String := "2.0"

def ofEntries (m : Entries) : Checked Document :=
  Document.mk <$> Entries.read m ["swagger"] (.ok defaultVersion) Value.readAny
    <*> Entries.require m "info" Info.read
    <*> Entries.require m "paths" (Value.readNodesWithoutExtensions (PathItem.read nestingLimit))
    <*> Entries.read m ["definitions"] (.ok .empty)
        (Value.readNodesOrNull (Schema.read (nestingLimit - 1)))
    <*> Entries.readExtras m fields

end Document

end ApiModel
