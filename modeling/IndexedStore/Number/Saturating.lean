/-! # Counts that stop at the largest word

Counts are 64-bit words; a sum or product beyond the largest word is that word.
-/

namespace IndexedStore.Number

def satAdd (a b : UInt64) : UInt64 := UInt64.ofNatClamp (a.toNat + b.toNat)

def satMul (a b : UInt64) : UInt64 := UInt64.ofNatClamp (a.toNat * b.toNat)

end IndexedStore.Number
