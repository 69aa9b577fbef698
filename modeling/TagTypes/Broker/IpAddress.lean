import TagTypes.Text.Digit
import TagTypes.Text.Split

/-!
# Numeric addresses

The forms of numeric addresses. One of version 4 is four decimal numbers below 256 without leading zeros. One of version 6 is eight groups of up to four hexadecimal digits, of which `::` may stand for one or more groups of zeros and the last two may be written as an address of version 4; a zone may follow after `%`.
-/

namespace TagTypes.Broker.IpAddress

def isOctet (cs : List Char) : Bool :=
  !cs.isEmpty && cs.all Char.isDigit && cs.length ≤ 3 && (cs.length = 1 || cs.head? ≠ some '0') &&
    Text.ofDigits 10 (cs.map fun c => c.toNat - 48) ≤ 255

def isVersion4 (cs : List Char) : Bool :=
  let octets := Text.split '.' cs
  octets.length = 4 && octets.all isOctet

def isHexDigit (c : Char) : Bool := c.isDigit || ('a' ≤ c && c ≤ 'f') || ('A' ≤ c && c ≤ 'F')

def isGroup (cs : List Char) : Bool := !cs.isEmpty && cs.length ≤ 4 && cs.all isHexDigit

/-- Groups in which none is left out. -/
def areFull (groups : List (List Char)) : Bool := groups.length = 8 && groups.all isGroup

/-- The groups on one side of `::`. -/
def areSide (groups : List (List Char)) : Bool := groups = [[]] || groups.all isGroup

/-- The number of groups on one side of `::`. -/
def sideLength (groups : List (List Char)) : Nat := if groups = [[]] then 0 else groups.length

/-- Write a version 4 address in the last place as two groups. -/
def expandLast (groups : List (List Char)) : Option (List (List Char)) :=
  match groups.getLast? with
  | some last =>
    if last.contains '.' then if isVersion4 last then some (groups.dropLast ++ [['0'], ['0']]) else none
    else some groups
  | none => none

/-- Groups with at most one place, not at an end, where groups are left out. -/
def areGroups (groups : List (List Char)) : Bool :=
  let inner := groups.drop 1 |>.dropLast
  match inner.idxOf? [] with
  | none => areFull groups
  | some i =>
    let before := groups.take (i + 1)
    let after := groups.drop (i + 2)
    areSide before && areSide after && sideLength before + sideLength after < 8

/-- The part in front of a zone, if the zone is well formed. -/
def withoutZone (cs : List Char) : Option (List Char) :=
  match Text.split '%' cs with
  | [address] => some address
  | [address, zone] => if zone.isEmpty then none else some address
  | _ => none

def isVersion6 (cs : List Char) : Bool :=
  match withoutZone cs with
  | none => false
  | some address =>
    let groups := Text.split ':' address
    3 ≤ groups.length && (expandLast groups).any areGroups

end TagTypes.Broker.IpAddress
