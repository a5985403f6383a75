namespace Listing.Number

def maxWord : Nat := 0xffffffffffffffff

def minLong : Int := -0x8000000000000000

def maxLong : Int := 0x7fffffffffffffff

def minInt : Int := -0x80000000

def maxInt : Int := 0x7fffffff

def minShort : Int := -0x8000

def maxShort : Int := 0x7fff

end Listing.Number
