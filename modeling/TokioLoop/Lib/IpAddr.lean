import Mathlib.Data.List.Basic

/-! The texts of IP addresses that Rust's `IpAddr::from_str` accepts, by the recursive
descent of the standard library. A reader takes the rest of the text and gives what it
read with what is left, or `none` and the text stays where it was. -/

inductive IpAddr where
  | v4 (octets : List Nat)
  | v6 (segments : List Nat)
  deriving DecidableEq, Repr

namespace IpAddr

/-- `char::to_digit` -/
def toDigit (radix : Nat) (c : Char) : Option Nat :=
  let value :=
    if '0' ≤ c ∧ c ≤ '9' then some (c.toNat - '0'.toNat)
    else if 'a' ≤ c ∧ c ≤ 'z' then some (c.toNat - 'a'.toNat + 10)
    else if 'A' ≤ c ∧ c ≤ 'Z' then some (c.toNat - 'A'.toNat + 10)
    else none
  value.filter (· < radix)

/-- The longest run of digits at the front. -/
def readDigits (radix : Nat) : List Char → List Nat × List Char
  | [] => ([], [])
  | c :: text =>
      match toDigit radix c with
      | none => ([], c :: text)
      | some d =>
          let (ds, left) := readDigits radix text
          (d :: ds, left)

/-- `read_number` with a digit limit; `bound` is the size of the number type. -/
def readNumber (radix maxDigits : Nat) (allowZeroPrefix : Bool) (bound : Nat) (text : List Char) :
    Option (Nat × List Char) :=
  let (ds, left) := readDigits radix text
  if ds = [] ∨ maxDigits < ds.length ∨ (allowZeroPrefix = false ∧ ds.head? = some 0 ∧ 1 < ds.length)
    then none
  else
    let n := ds.foldl (fun n d => n * radix + d) 0
    if n < bound then some (n, left) else none

/-- `read_separator`: every part but the first stands behind a separator. -/
def readSeparator {α : Type} (sep : Char) (first : Bool)
    (inner : List Char → Option (α × List Char)) (text : List Char) : Option (α × List Char) :=
  if first then inner text
  else
    match text with
    | [] => none
    | c :: rest => if c = sep then inner rest else none

/-- The last `n` octets of an IPv4 address. -/
def readOctets (first : Bool) : Nat → List Char → Option (List Nat × List Char)
  | 0, text => some ([], text)
  | n + 1, text => do
      let (octet, rest) ← readSeparator '.' first (readNumber 10 3 false 256) text
      let (more, left) ← readOctets false n rest
      return (octet :: more, left)

def readIpv4Addr (text : List Char) : Option (List Nat × List Char) := readOctets true 4 text

/-- The two groups an embedded IPv4 address fills. -/
def embedded : List Nat → List Nat
  | a :: b :: rest => (a * 256 + b) :: embedded rest
  | rest => rest

/-- `read_groups` for at most `n` further groups: the groups, and whether an IPv4 address
ended them, for which two groups must be left. -/
def readGroups (first : Bool) : Nat → List Char → List Nat × Bool × List Char
  | 0, text => ([], false, text)
  | n + 1, text =>
      match if 0 < n then readSeparator ':' first readIpv4Addr text else none with
      | some (octets, rest) => (embedded octets, true, rest)
      | none =>
          match readSeparator ':' first (readNumber 16 4 true 65536) text with
          | none => ([], false, text)
          | some (group, rest) =>
              let (more, ipv4, left) := readGroups false n rest
              (group :: more, ipv4, left)

/-- `read_ipv6_addr`; the `::` stands for at least one group of zeros. -/
def readIpv6Addr (text : List Char) : Option (List Nat × List Char) :=
  let (head, headIpv4, rest) := readGroups true 8 text
  if head.length = 8 then some (head, rest)
  else if headIpv4 then none
  else
    match rest with
    | ':' :: ':' :: rest =>
        let (tail, _, left) := readGroups true (8 - (head.length + 1)) rest
        some (head ++ List.replicate (8 - tail.length - head.length) 0 ++ tail, left)
    | _ => none

/-- `read_ip_addr`: an IPv6 address is tried only where no IPv4 address starts. -/
def readIpAddr (text : List Char) : Option (IpAddr × List Char) :=
  match readIpv4Addr text with
  | some (octets, left) => some (.v4 octets, left)
  | none => (readIpv6Addr text).map fun r => (.v6 r.1, r.2)

/-- `IpAddr::from_str`: the whole text is an address. -/
def fromStr (text : List Char) : Option IpAddr :=
  (readIpAddr text).bind fun r => if r.2 = [] then some r.1 else none

example : fromStr "::ffff:127.0.0.1".toList = some (.v6 [0, 0, 0, 0, 0, 65535, 32512, 1]) := by
  decide

example : fromStr "localhost".toList = none := by decide

end IpAddr
