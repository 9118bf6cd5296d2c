/-!
# Powers

Numbers are raised to powers by the operations of the core library, also in modules that
see the powers of monoids, so that a definition means the same whatever else is imported.
-/

attribute [instance (high + 1)] instPowNat

attribute [default_instance (high + 1)] instPowNat
