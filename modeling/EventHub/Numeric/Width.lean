/-!
# Widths

Numbers that fit in a fixed number of bits.
-/

namespace EventHub.Numeric

def limit (bits : Nat) : Nat := Nat.pow 2 bits

end EventHub.Numeric
