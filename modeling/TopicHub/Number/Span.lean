/-!
The numbers of values that words of some bits hold.
-/

namespace TopicHub.Number

def span11 : Nat := 2048

def span16 : Nat := 65536

def span31 : Nat := 2147483648

def span32 : Nat := 4294967296

def span52 : Nat := 4503599627370496

def span53 : Nat := 9007199254740992

def span63 : Nat := 9223372036854775808

def span64 : Nat := 18446744073709551616

def span127 : Nat := 170141183460469231731687303715884105728

def span128 : Nat := 340282366920938463463374607431768211456

end TopicHub.Number
