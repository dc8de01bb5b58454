/-!
# Arithmetic

A power of numbers is the power of the core library, and a sum of a list starts from its zero,
whatever algebraic structures are known besides.
-/

attribute [instance (high)] instPowNat Zero.ofOfNat0

attribute [default_instance (high + 1)] instPowNat
