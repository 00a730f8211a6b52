/-!
# Base 64

Reading bytes written in base 64. Characters outside the alphabet are passed
over. Padding that completes a group of four ends the text; a group that is
neither complete nor padded makes it unreadable.
-/

namespace TreeScript.Text.Base64

/-- The six bits that a character stands for. -/
def sextet? (c : Char) : Option Nat :=
  if 'A' ≤ c ∧ c ≤ 'Z' then some (c.toNat - 65)
  else if 'a' ≤ c ∧ c ≤ 'z' then some (c.toNat - 71)
  else if '0' ≤ c ∧ c ≤ '9' then some (c.toNat + 4)
  else if c = '+' then some 62
  else if c = '/' then some 63
  else none

/-- The whole bytes that a group of at most four sextets holds. -/
def bytesOf : List Nat → List UInt8
  | a :: b :: rest =>
    UInt8.ofNat (a * 4 + b / 16) ::
      match rest with
      | [] => []
      | c :: rest =>
        UInt8.ofNat (b * 16 + c / 4) ::
          match rest with
          | [] => []
          | d :: _ => [UInt8.ofNat (c * 64 + d)]
  | _ => []

/-- The bytes from the middle of a group on, after so many padding marks. -/
def decodeFrom (group : List Nat) (pads : Nat) : List Char → Option (List UInt8)
  | [] => if group.isEmpty then some [] else none
  | c :: rest =>
    if c = '=' then
      if group.length < 2 then decodeFrom group pads rest
      else if 4 ≤ group.length + pads + 1 then some (bytesOf group)
      else decodeFrom group (pads + 1) rest
    else
      match sextet? c with
      | none => decodeFrom group pads rest
      | some bits =>
        let group := group ++ [bits]
        if group.length = 4 then (decodeFrom [] 0 rest).map (bytesOf group ++ ·)
        else decodeFrom group 0 rest

def decode? (s : List Char) : Option (List UInt8) := decodeFrom [] 0 s

end TreeScript.Text.Base64
