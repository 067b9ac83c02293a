/-! Sets of named bits in words of 32 bits, and the two ways of writing them. -/

namespace RenderGraph.Text

/-- The named bits of a flag set, each with its position, in the order they are written. -/
abbrev FlagNames := List (Nat × String)

def FlagNames.present (names : FlagNames) (bits : BitVec 32) : List String :=
  (names.filter fun flag => bits.getLsbD flag.1).map Prod.snd

def FlagNames.known (names : FlagNames) : BitVec 32 :=
  names.foldl (fun mask flag => mask ||| BitVec.twoPow 32 flag.1) 0

def hexadecimal (n : Nat) : String :=
  "0x" ++ String.ofList (Nat.toDigits 16 n)

/-- The names that are set, then the unnamed bits in hexadecimal; the empty set is written as
zero. -/
def FlagNames.exact (names : FlagNames) (bits : BitVec 32) : String :=
  let rest := bits &&& ~~~names.known
  if bits = 0 then hexadecimal 0
  else " | ".intercalate
    (names.present bits ++ if rest = 0 then [] else [hexadecimal rest.toNat])

end RenderGraph.Text
