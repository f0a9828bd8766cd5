/-! Sets of characters, given by closed ranges of code points. -/

namespace SceneScript.Text

abbrev Ranges := List (Nat × Nat)

def Ranges.contains (rs : Ranges) (c : Char) : Bool :=
  rs.any fun r => r.1 ≤ c.toNat && c.toNat ≤ r.2

end SceneScript.Text
