import Mathlib.Data.Int.Order.Basic
import Mathlib.Data.String.Basic

-- An aware timestamp, in microseconds since the epoch.
abbrev Instant := Int

-- Of the orders on the integers, the one that computes, and likewise of the zeros.
instance : Preorder Instant := Int.instLinearOrder.toPreorder

instance : Zero Instant := ⟨0⟩

namespace Instant

def second : Int := 1000000

-- `int((later - earlier).total_seconds())`, cut off at zero.
def elapsedSeconds (later earlier : Instant) : Nat :=
  (Int.tdiv (later - earlier) second).toNat

end Instant

-- The exceptions that the store raises. A transaction that raises one is rolled back.
inductive StoreError
  | value     (message : String)
  | runtime   (message : String)
  | key       (key : List String)
  | integrity (message : String)
  | queueFull (message : String)
  | type      (message : String)
  deriving DecidableEq, Repr

-- `text[:count]`, and `substr(text, 1, count)`.
def takeChars (count : Nat) (text : String) : String :=
  String.ofList <| text.toList.take count

-- `text.encode()[:bytes].decode(errors="ignore")`: the characters that fit as a whole.
def takeBytes (bytes : Nat) (text : String) : String :=
  String.ofList <| go bytes text.toList
where
  go (bytes : Nat) : List Char → List Char
    | []      => []
    | c :: cs => if c.utf8Size ≤ bytes then c :: go (bytes - c.utf8Size) cs else []

-- The characters that `str.strip` takes off.
def isSpace (c : Char) : Bool :=
  (0x09 ≤ c.toNat && c.toNat ≤ 0x0d) || (0x1c ≤ c.toNat && c.toNat ≤ 0x20) ||
  (0x2000 ≤ c.toNat && c.toNat ≤ 0x200a) ||
  c.toNat ∈ [0x85, 0xa0, 0x1680, 0x2028, 0x2029, 0x202f, 0x205f, 0x3000]

def strip (text : String) : String :=
  String.ofList <| (text.toList.dropWhile isSpace).reverse.dropWhile isSpace |>.reverse

def isLowerHex (c : Char) : Bool :=
  ('0' ≤ c && c ≤ '9') || ('a' ≤ c && c ≤ 'f')

-- `_valid_uuid_v4`: the canonical spelling of an RFC 4122 identifier of version 4.
def validUuidV4 (value : String) : Bool :=
  value.toList.length = 36 && value.toList.zipIdx.all fun (c, i) =>
    if i ∈ [8, 13, 18, 23] then c = '-'
    else if i = 14 then c = '4'
    else if i = 19 then c ∈ ['8', '9', 'a', 'b']
    else isLowerHex c
