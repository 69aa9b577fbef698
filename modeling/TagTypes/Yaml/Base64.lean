/-!
# Bytes written in base 64

Four characters stand for three bytes. Characters that are no digits are passed over; an equals sign ends the text where the third or fourth digit of a group may be missing.
-/

namespace TagTypes.Yaml.Base64

def digit? (c : Char) : Option Nat :=
  if 'A' ≤ c && c ≤ 'Z' then some (c.toNat - 65)
  else if 'a' ≤ c && c ≤ 'z' then some (c.toNat - 71)
  else if c.isDigit then some (c.toNat + 4)
  else if c = '+' then some 62
  else if c = '/' then some 63
  else none

/-- Read on, after `taken` digits of a group of which `bits` are not yet in a byte, and after `pads` equals signs. -/
def readGroup (taken bits pads : Nat) : List Char → Option (List UInt8)
  | [] => if taken = 0 then some [] else none
  | c :: cs =>
    if c = '=' then
      if 2 ≤ taken && 4 ≤ taken + pads + 1 then some []
      else readGroup taken bits (if 2 ≤ taken then pads + 1 else pads) cs
    else
      match digit? c with
      | none => readGroup taken bits pads cs
      | some d =>
        let (byte, left) := match taken with
          | 1 => (bits * 4 + d / 16, d % 16)
          | 2 => (bits * 16 + d / 4, d % 4)
          | _ => (bits * 64 + d, 0)
        if taken = 0 then readGroup 1 d 0 cs
        else (readGroup ((taken + 1) % 4) left 0 cs).map (UInt8.ofNat byte :: ·)

def bytes? (cs : List Char) : Option (List UInt8) := readGroup 0 0 0 cs

end TagTypes.Yaml.Base64
