namespace Listing

scoped instance (priority := 2000) power {α : Type} [NatPow α] : Pow α Nat := instPowNat

end Listing
