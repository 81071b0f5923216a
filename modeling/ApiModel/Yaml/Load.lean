import ApiModel.Text.Utf8
import ApiModel.Yaml.Node
import ApiModel.Yaml.Scan

namespace ApiModel.Yaml

def isAllowed (c : Char) : Bool :=
  let n := c.toNat
  n = 0x09 || n = 0x0A || n = 0x0D || (0x20 ≤ n && n ≤ 0x7E) || n = 0x85 || (0xA0 ≤ n && n ≤ 0xD7FF) ||
    (0xE000 ≤ n && n ≤ 0xFFFD) || 0x10000 ≤ n

def read (cs : List Char) : Except Fault Value := do
  if !cs.all isAllowed then .error .malformed
  let tree ← Tree.ofTokens (.ofText (Text.normalizeLineEnds cs))
  tree.value

end ApiModel.Yaml
