import EntityGraph.Domain.Basic
import EntityGraph.Text.Hex

/-!
# Absolute URLs

Whether a text is an absolute URL in the sense of the living standard: a scheme, and for the
schemes of the web a host that is a domain, an IPv4 address in any of its spellings or an IPv6
address in brackets, with a port below `2 ^ 16`. A domain may have percent escapes and characters
of any script. Controls and blanks around the text do not count, nor do tabs and line ends inside
it. URLs of other schemes may have an opaque host or none.
-/
namespace EntityGraph.Url

def strip (s : List Char) : List Char :=
  let isOuter (c : Char) := c.toNat ≤ 0x20
  let trimmed := ((s.dropWhile isOuter).reverse.dropWhile isOuter).reverse
  trimmed.filter fun c => c ≠ '\t' && c ≠ '\n' && c ≠ '\r'

def isSchemeChar (c : Char) : Bool :=
  c.isAlphanum || c == '+' || c == '-' || c == '.'

def scheme? : List Char → Option (String × List Char)
  | [] => none
  | c :: rest =>
    match rest.dropWhile isSchemeChar with
    | ':' :: after =>
      if c.isAlpha then
        some (String.ofList ((c :: rest.takeWhile isSchemeChar).map Char.toLower), after)
      else none
    | _ => none

inductive SchemeKind where
  | web
  | file
  | other
  deriving DecidableEq

def schemeKind (scheme : String) : SchemeKind :=
  if ["http", "https", "ws", "wss", "ftp"].contains scheme then .web
  else if scheme = "file" then .file
  else .other

/-- A part of an IPv4 address: hexadecimal after `0x`, octal after `0`, else decimal. -/
def ipv4Number? : List Char → Option Nat
  | [] => none
  | ['0'] => some 0
  | '0' :: 'x' :: digits => if digits.all Text.isHexDigit then some (Text.numeral 16 digits) else none
  | '0' :: 'X' :: digits => if digits.all Text.isHexDigit then some (Text.numeral 16 digits) else none
  | '0' :: digits =>
    if digits.all (Text.isDigitOf 8) then some (Text.numeral 8 digits) else none
  | digits => if digits.all Char.isDigit then some (Text.numeral 10 digits) else none

/-- The labels of a domain without the empty one after a final point. -/
def labels (domain : List Char) : List (List Char) :=
  let parts := Text.splitAt '.' domain
  if 1 < parts.length && parts.getLast? == some [] then parts.dropLast else parts

def endsInNumber (domain : List Char) : Bool :=
  match (labels domain).getLast? with
  | none => false
  | some last => (last ≠ [] && last.all Char.isDigit) || (ipv4Number? last).isSome

def isIpv4 (domain : List Char) : Bool :=
  match (labels domain).mapM ipv4Number? with
  | none => false
  | some numbers =>
    numbers.length ≤ 4 && numbers.dropLast.all (· ≤ 255)
      && numbers.getLast?.any (· < Nat.pow 256 (5 - numbers.length))

def isIpv4Piece (s : List Char) : Bool :=
  s ≠ [] && s.all Char.isDigit && Text.numeral 10 s ≤ 255 && (s.length == 1 || s.head? ≠ some '0')

/-- How many of the eight groups of an IPv6 address a list of groups fills; the last of them may
be an IPv4 address, which fills two. -/
def groupCount? : List (List Char) → Option Nat
  | [] => some 0
  | [last] =>
    if last ≠ [] && last.length ≤ 4 && last.all Text.isHexDigit then some 1
    else
      let pieces := Text.splitAt '.' last
      if pieces.length == 4 && pieces.all isIpv4Piece then some 2 else none
  | group :: rest =>
    if group ≠ [] && group.length ≤ 4 && group.all Text.isHexDigit then (groupCount? rest).map (· + 1)
    else none

def splitDouble : List Char → Option (List Char × List Char)
  | [] => none
  | ':' :: ':' :: rest => some ([], rest)
  | c :: rest => (splitDouble rest).map fun (before, after) => (c :: before, after)

def groups (s : List Char) : List (List Char) :=
  if s = [] then [] else Text.splitAt ':' s

def isIpv6 (s : List Char) : Bool :=
  match splitDouble s with
  | none => groupCount? (groups s) == some 8
  | some (before, after) =>
    let whole := groups before ++ groups after
    !(before.contains '.') && (groupCount? whole).any fun count => count ≤ 7

def hostBytes : List Char → List UInt8
  | '%' :: a :: b :: rest =>
    if Text.isHexDigit a && Text.isHexDigit b then
      UInt8.ofNat (Text.numeral 16 [a, b]) :: hostBytes rest
    else String.utf8EncodeChar '%' ++ hostBytes (a :: b :: rest)
  | c :: rest => String.utf8EncodeChar c ++ hostBytes rest
  | [] => []

def isDomain (s : List Char) : Bool :=
  let domain? := (String.fromUTF8? ⟨(hostBytes s).toArray⟩).bind fun host => Domain.map? host.toList
  domain?.any fun domain => domain ≠ [] && (!endsInNumber domain || isIpv4 domain)

def isBracketed (s : List Char) : Bool :=
  s.getLast? == some ']' && isIpv6 ((s.drop 1).dropLast)

def isWebHost (s : List Char) : Bool :=
  if s.head? == some '[' then isBracketed s else isDomain s

def isOpaqueHostChar (c : Char) : Bool :=
  c ≠ '\x00' && !(" #/:<>?@[\\]^|".toList.contains c)

def isOpaqueHost (s : List Char) : Bool :=
  if s.head? == some '[' then isBracketed s else s.all isOpaqueHostChar

def splitHost (inside : Bool) : List Char → List Char × List Char
  | [] => ([], [])
  | c :: rest =>
    if c = ':' && !inside then ([], c :: rest)
    else
      let (host, after) := splitHost (c = '[' || (inside && c ≠ ']')) rest
      (c :: host, after)

/-- Whether a port may follow a host. A backslash ends it in every scheme. -/
def isPort : List Char → Bool
  | [] => true
  | _ :: port =>
    let digits := port.takeWhile (· ≠ '\\')
    digits.all Char.isDigit && Text.numeral 10 digits ≤ 65535

/-- The part of an authority after the last at sign, and whether there is something before it. -/
def splitUser (authority : List Char) : Bool × List Char :=
  let host := (authority.reverse.takeWhile (· ≠ '@')).reverse
  let user := authority.take (authority.length - host.length - 1)
  (user ≠ [] && user ≠ [':'], host)

/-- Whether an authority can stand before a path, query or fragment, or at the end of the URL. -/
def isAuthority (kind : SchemeKind) (authority : List Char) (isLast : Bool) : Bool :=
  let (hasUser, rest) := splitUser authority
  let (host, port) := splitHost false rest
  if host = [] then
    kind == .other && port == [] && !hasUser && (isLast || authority != ['@'])
  else (if kind == .other then isOpaqueHost host else isWebHost host) && isPort port

def authorityOf (kind : SchemeKind) (s : List Char) : List Char :=
  s.takeWhile fun c => c ≠ '/' && c ≠ '?' && c ≠ '#' && !(kind ≠ .other && c = '\\')

def startsWithAuthority (kind : SchemeKind) (s : List Char) : Bool :=
  let authority := authorityOf kind s
  isAuthority kind authority (authority.length == s.length)

def isSlash (c : Char) : Bool := c = '/' || c = '\\'

def isDriveLetter : List Char → Bool
  | [c, mark] => c.isAlpha && (mark = ':' || mark = '|')
  | _ => false

def isAbsolute (text : String) : Bool :=
  match scheme? (strip text.toList) with
  | none => false
  | some (scheme, rest) =>
    match schemeKind scheme with
    | .web => startsWithAuthority .web (rest.dropWhile isSlash)
    | .file =>
      match rest with
      | a :: b :: after =>
        let host := authorityOf .file after
        !(isSlash a && isSlash b) || host = [] || isDriveLetter host || isWebHost host
      | _ => true
    | .other =>
      match rest with
      | '/' :: '/' :: after => startsWithAuthority .other after
      | _ => true

end EntityGraph.Url
