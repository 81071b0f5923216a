import ApiModel.Model.Writing
import ApiModel.Plain.Json
import ApiModel.Yaml.Writing

namespace ApiModel

inductive FileFormat
  | json
  | yaml
  deriving DecidableEq

def Model.text (m : Model) : FileFormat → Str
  | .json => m.toPlain.toJson
  | .yaml => Plain.recordToYaml m.parts

def Model.render (m : Model) (format : FileFormat) : Option Str :=
  if m.isDeep then none else some (m.text format)

end ApiModel
