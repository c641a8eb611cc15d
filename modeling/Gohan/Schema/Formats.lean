import Gohan.Lang.Value
import Gohan.Logic.Masks

/-!
# The formats of addresses

`ipv4`, `ipv4-network`, `ipv4-address-with-cidr` and `cidr-or-ipv4` are formats of strings.  Each is
checked with package `net`, and once more: the address has to match a regular expression, and
`maskIsValid` looks at the length of the prefix.  The second look is for zeros that package `net`
reads over.

A text is a list of characters; whatever is looked at one by one, or has its length taken, consists
of digits.  A nil `IP` is an empty one.  The characters that the regular expression has by Unicode
class are left open, since package `net` reads no zone here.
-/

set_option autoImplicit false

namespace Gohan.Formats

/-! ## Package `net` -/

/-- `big`: a number that is larger than any that is looked for. -/
def big : ℕ := 0xFFFFFF

/-- The loop of `dtoi`: the number, and what comes after it. -/
def dtoiFrom (n : ℕ) : List Char → Option (ℕ × List Char)
  | [] => some (n, [])
  | c :: s =>
    if c.isDigit then
      let n := n * 10 + (c.toNat - '0'.toNat)
      if big ≤ n then none else dtoiFrom n s
    else some (n, c :: s)

/-- `dtoi`; there has to be a digit. -/
def dtoi (s : List Char) : Option (ℕ × List Char) :=
  match s with
  | [] => none
  | c :: _ => if c.isDigit then dtoiFrom 0 s else none

/-- The value of a hexadecimal digit. -/
def hexDigit? (c : Char) : Option ℕ :=
  if c.isDigit then some (c.toNat - '0'.toNat)
  else if 'a' ≤ c ∧ c ≤ 'f' then some (c.toNat - 'a'.toNat + 10)
  else if 'A' ≤ c ∧ c ≤ 'F' then some (c.toNat - 'A'.toNat + 10)
  else none

/-- The loop of `xtoi`. -/
def xtoiFrom (n : ℕ) : List Char → Option (ℕ × List Char)
  | [] => some (n, [])
  | c :: s =>
    match hexDigit? c with
    | some d =>
      let n := n * 16 + d
      if big ≤ n then none else xtoiFrom n s
    | none => some (n, c :: s)

/-- `xtoi`. -/
def xtoi (s : List Char) : Option (ℕ × List Char) :=
  match s with
  | [] => none
  | c :: _ => if (hexDigit? c).isSome then xtoiFrom 0 s else none

/-- The bytes of an address, 4 or 16. -/
abbrev IP := List UInt8

/-- The bytes of a mask. -/
abbrev IPMask := List UInt8

/-- `v4InV6Prefix`: how an IPv4 address begins in 16 bytes. -/
def v4InV6Prefix : IP := [0, 0, 0, 0, 0, 0, 0, 0, 0, 0, 0xff, 0xff]

/-- There is a point before each number but the first. -/
def skipPoint (first : Bool) (s : List Char) : Option (List Char) :=
  if first then some s
  else match s with
    | '.' :: s => some s
    | _ => none

/-- The loop of `parseIPv4`, for so many numbers. -/
def parseOctets : ℕ → Bool → List Char → Option IP
  | 0, _, s => if s = [] then some [] else none
  | i + 1, first, s => do
    let s ← skipPoint first s
    let (n, s) ← dtoi s
    if 0xFF < n then none
    else do
      let rest ← parseOctets i false s
      some (UInt8.ofNat n :: rest)

/-- `parseIPv4`: four octets. -/
def parseIPv4 (s : List Char) : Option IP := (parseOctets 4 true s).map (v4InV6Prefix ++ ·)

/-- The loop of `parseIPv6`, for at most so many groups: the bytes, the place of the ellipsis, and
what is left of the text. -/
def parseGroups : ℕ → IP → Option ℕ → List Char → Option (IP × Option ℕ × List Char)
  | 0, ip, ellipsis, s => some (ip, ellipsis, s)
  | i + 1, ip, ellipsis, s => do
    let (n, rest) ← xtoi s
    if 0xFFFF < n then none
    else
      let grown := ip ++ [UInt8.ofNat (n / 256), UInt8.ofNat n]
      match rest with
      | '.' :: _ =>
        if ellipsis = none ∧ ip.length ≠ 12 then none
        else if 16 < ip.length + 4 then none
        else do
          let ip4 ← parseIPv4 s
          some (ip ++ ip4.drop 12, ellipsis, [])
      | [] => some (grown, ellipsis, [])
      | [':'] => none
      | ':' :: ':' :: rest =>
        if ellipsis ≠ none then none
        else if rest = [] then some (grown, some grown.length, [])
        else parseGroups i grown (some grown.length) rest
      | ':' :: rest => parseGroups i grown ellipsis rest
      | _ => none

/-- An ellipsis that comes first. -/
def leadingEllipsis : List Char → Option ℕ × List Char
  | ':' :: ':' :: s => (some 0, s)
  | s => (none, s)

/-- `parseIPv6`, without a zone. -/
def parseIPv6 (s : List Char) : Option IP :=
  let (ellipsis, s) := leadingEllipsis s
  if ellipsis = some 0 ∧ s = [] then some (List.replicate 16 0)
  else do
    let (ip, ellipsis, s) ← parseGroups 8 [] ellipsis s
    if s ≠ [] then none
    else if ip.length < 16 then
      match ellipsis with
      | none => none
      | some place =>
        some (ip.take place ++ List.replicate (16 - ip.length) 0 ++ ip.drop place)
    else if ellipsis ≠ none then none
    else some ip

/-- `ParseIP`. -/
def parseIP (s : List Char) : Option IP :=
  match s.find? fun c ↦ c = '.' || c = ':' with
  | some '.' => parseIPv4 s
  | some _ => parseIPv6 s
  | none => none

namespace IP

/-- `To4`: the four bytes of an IPv4 address, or nothing. -/
def to4 (ip : IP) : IP :=
  if ip.length = 4 then ip
  else if ip.length = 16 ∧ ip.take 12 = v4InV6Prefix then ip.drop 12
  else []

/-- `ip.Mask(mask)`. -/
def mask (ip : IP) (mask : IPMask) : IP :=
  let mask :=
    if mask.length = 16 ∧ ip.length = 4 ∧ (mask.take 12).all (· == 0xff) then mask.drop 12 else mask
  let ip := if mask.length = 4 ∧ ip.length = 16 ∧ ip.take 12 = v4InV6Prefix then ip.drop 12 else ip
  if ip.length ≠ mask.length then [] else List.zipWith (· &&& ·) ip mask

/-- `Equal`: the same address, be it in 4 or in 16 bytes. -/
def equal (ip x : IP) : Bool :=
  if ip.length = x.length then ip == x
  else if ip.length = 4 ∧ x.length = 16 then x.take 12 == v4InV6Prefix && ip == x.drop 12
  else if ip.length = 16 ∧ x.length = 4 then ip.take 12 == v4InV6Prefix && ip.drop 12 == x
  else false

end IP

/-- `CIDRMask`. -/
def cidrMask (ones bits : ℕ) : IPMask := Masks.ones (bits / 8) ones

/-- The number of ones that a byte starts with, if zeros follow them. -/
def leadingOnes (v : UInt8) : Option ℕ :=
  (List.range 8).find? fun n ↦ v == ~~~ (0xff >>> UInt8.ofNat n)

/-- `simpleMaskLength`. -/
def simpleMaskLength : IPMask → Option ℕ
  | [] => some 0
  | v :: mask =>
    if v = 0xff then (simpleMaskLength mask).map (8 + ·)
    else if mask.all (· == 0) then leadingOnes v else none

/-- `mask.Size()`, its first result. -/
def size (mask : IPMask) : ℕ := (simpleMaskLength mask).getD 0

/-- `ParseCIDR`: the address, the address of the network, and the mask of the network. -/
def parseCIDR (s : List Char) : Go (IP × IP × IPMask) :=
  let invalid : Go (IP × IP × IPMask) := .errorf "invalid CIDR address: %s" [.str (String.ofList s)]
  match s.span (· ≠ '/') with
  | (_, []) => invalid
  | (addr, _ :: mask) =>
    let (iplen, ip) : ℕ × Option IP :=
      match parseIPv4 addr with
      | some ip => (4, some ip)
      | none => (16, parseIPv6 addr)
    match ip, dtoi mask with
    | some ip, some (n, rest) =>
      if rest ≠ [] ∨ 8 * iplen < n then invalid
      else
        let m := cidrMask n (8 * iplen)
        .ok (ip, ip.mask m, m)
    | _, _ => invalid

/-! ## The checkers -/

section Checkers

variable (isLetterOrNumber : Char → Bool)

/-- `[0-9]|[1-9][0-9]|1[0-9][0-9]|2[0-4][0-9]|25[0-5]` -/
def isOctet : List Char → Bool
  | [a] => a.isDigit
  | [a, b] => '1' ≤ a && a ≤ '9' && b.isDigit
  | [a, b, c] => (a = '1' && b.isDigit && c.isDigit) ||
      (a = '2' && '0' ≤ b && b ≤ '4' && c.isDigit) ||
      (a = '2' && b = '5' && '0' ≤ c && c ≤ '5')
  | _ => false

/-- `yangIPv4FormatRegexp.MatchString`: four octets with points between them, and possibly a percent
sign with letters and numbers. -/
def matchYangIPv4AddressPattern (input : List Char) : Bool :=
  let (address, zone) := input.span (· ≠ '%')
  (match address.splitOn '.' with
    | [a, b, c, d] => isOctet a && isOctet b && isOctet c && isOctet d
    | _ => false) &&
  match zone with
  | [] => true
  | _ :: zone => zone ≠ [] && zone.all isLetterOrNumber

/-- The format `ipv4`. -/
def ipv4 (input : List Char) : Bool :=
  match parseIP input with
  | some ip => ip.to4 ≠ [] && matchYangIPv4AddressPattern isLetterOrNumber input
  | none => false

/-- `maskIsValid`: two digits at most, and the first one of two is not zero. -/
def maskIsValid (mask : List Char) : Bool :=
  if 2 < mask.length then false
  else if mask.length = 2 ∧ mask.head? = some '0' then false
  else true

/-- `pointToPointPrefixSize`. -/
def pointToPointPrefixSize : ℕ := 31

/-- `extractIpAndMaskFromCidrFormattedString`. -/
def extractIpAndMask (input : List Char) : Go (List Char × List Char) :=
  match input.splitOn '/' with
  | ip :: mask :: _ => .ok (ip, mask)
  | _ => .panicf "runtime error: index out of range"

/-- `extractIpFromCidrFormattedString`. -/
def extractIp (input : List Char) : Go (List Char) := do
  let (ip, _) ← extractIpAndMask input
  .ok ip

/-- `extractHostAndNet`. -/
def extractHostAndNet (input : List Char) : Go (IP × IP × IPMask) := do
  let (cidrIP, cidrNet, mask) ← parseCIDR input
  let hostIP := cidrIP.to4
  let netIP := cidrNet.to4
  if hostIP = [] ∨ netIP = [] then .errorf "Invalid address: host or network ip empty"
  else .ok (hostIP, netIP, mask)

/-- `isBroadcast`: all bits outside of the mask are set. -/
def isBroadcast (host : IP) (mask : IPMask) : Bool :=
  (host.zip mask).all fun e ↦ e.1 ||| e.2 == 255

/-- The format `ipv4-network`. -/
def ipv4Network (input : List Char) : Go Bool :=
  match extractHostAndNet input with
  | .error _ => .ok false
  | .ok (hostIP, netIP, _) => do
    let (inputIp, mask) ← extractIpAndMask input
    if !matchYangIPv4AddressPattern isLetterOrNumber inputIp then .ok false
    else if !maskIsValid mask then .ok false
    else .ok (hostIP.equal netIP)

/-- The format `ipv4-address-with-cidr`. -/
def ipv4AddressWithCidr (input : List Char) : Go Bool :=
  match extractHostAndNet input with
  | .error _ => .ok false
  | .ok (hostIP, netIP, mask) => do
    let inputIp ← extractIp input
    if !matchYangIPv4AddressPattern isLetterOrNumber inputIp then .ok false
    else if size mask = pointToPointPrefixSize then .ok true
    else if isBroadcast hostIP mask then .ok false
    else .ok !hostIP.equal netIP

/-- The format `cidr-or-ipv4`. -/
def cidrOrIPv4 (input : List Char) : Go Bool :=
  if ipv4 isLetterOrNumber input then .ok true
  else do
    if ← ipv4AddressWithCidr isLetterOrNumber input then .ok true
    else ipv4Network isLetterOrNumber input

end Checkers

end Gohan.Formats
