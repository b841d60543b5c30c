namespace NodeProtocol.Text

abbrev CharRange := Nat × Nat

namespace CharRange

def covers (ranges : Array CharRange) (c : Char) : Bool :=
  ranges.any fun (first, last) => first ≤ c.toNat && c.toNat ≤ last

end CharRange

end NodeProtocol.Text
