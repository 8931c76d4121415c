import PatchReview.Encoding.Base64
import PatchReview.Fault
import PatchReview.Text.Naming

/-!
# Web addresses

An address is read into its parts, and every part is brought into its plain form: what may not stand there is written
as escaped bytes, dots in the path are taken out, and the name of the host is in lower case. An address without a host
is appended to the one of a connection.
-/

namespace PatchReview.Service

open Char String Text

structure Address where
  scheme : String
  user : String
  host : String
  port : Option Int
  path : String
  query : Option String
  fragment : Option String

namespace Address

/-- Printable ASCII without some characters. -/
def plainExcept (bad : String) (c : Char) : Bool := 0x20 ≤ c.toNat && c.toNat < 0x7F && !bad.toList.contains c

def isFragmentChar : Char → Bool := plainExcept " \"<>`"

def isQueryChar : Char → Bool := plainExcept " \"#<>"

def isPathChar : Char → Bool := plainExcept " \"#<>?`\x7b\x7d"

def isUserChar : Char → Bool := plainExcept " \"#<>?`\x7b\x7d/;=@[\\]^|"

variable (a : Address) (host s : String) (c : Char) (label : Chars) (url : String)

def isHostChar : Bool := c.isAlphanum || "-._~!$&'()*+,;=\"`\x7b\x7d%|\\".toList.contains c

def upperDigit (n : Nat) : Char := (hexDigit n).toUpper

def escapeOf : Chars :=
  (utf8 (singleton c)).flatMap fun b => ['%', upperDigit (b.toNat / 16), upperDigit (b.toNat % 16)]

/-- Escapes the characters that may not stand in a part; what is escaped already stays. -/
def escapeChars (allowed : Char → Bool) : Chars → Chars
  | '%' :: a :: b :: rest =>
    if isHex a && isHex b then '%' :: a :: b :: escapeChars allowed rest
    else (if allowed '%' then ['%'] else escapeOf '%') ++ escapeChars allowed (a :: b :: rest)
  | c :: rest => (if allowed c then [c] else escapeOf c) ++ escapeChars allowed rest
  | [] => []

def escaped (allowed : Char → Bool) (s : String) : String := ofList (escapeChars allowed s.toList)

def unescapedBytes : Chars → Bytes
  | '%' :: a :: b :: rest =>
    match hexDigit? a, hexDigit? b with
    | some x, some y => UInt8.ofNat (16 * x + y) :: unescapedBytes rest
    | _, _ => 37 :: unescapedBytes (a :: b :: rest)
  | c :: rest => utf8 (singleton c) ++ unescapedBytes rest
  | [] => []

/-! ## Hosts -/

/-- A part of a number in the form of a delta, its digits from the lowest on. The bias says how many letters are needed. -/
def deltaLetters (bias : Nat) : Nat → Nat → Nat → Chars
  | 0, _, _ => []
  | fuel + 1, k, q =>
    let t := if k ≤ bias then 1 else if bias + 26 ≤ k then 26 else k - bias
    let letter (n : Nat) : Char := if n < 26 then ofNat (97 + n) else ofNat (22 + n)
    if q < t then [letter q]
    else letter (t + (q - t) % (36 - t)) :: deltaLetters bias fuel (k + 36) ((q - t) / (36 - t))

def scaledDelta : Nat → Nat → Nat → Nat
  | 0, k, delta => k + 36 * delta / (delta + 38)
  | fuel + 1, k, delta =>
    if 455 < delta then scaledDelta fuel (k + 36) (delta / 35) else k + 36 * delta / (delta + 38)

def nextBias (delta count : Nat) (first : Bool) : Nat :=
  let delta := if first then delta / 700 else delta / 2
  scaledDelta 64 0 (delta + delta / count)

structure Encoding where
  code : Nat
  delta : Nat
  bias : Nat
  handled : Nat
  letters : Chars

/-- Encodes all characters of one code, which is the least that was not encoded yet. -/
def encodeCode (label : List Nat) (basic : Nat) (e : Encoding) (code : Nat) : Encoding :=
  let start := { e with delta := e.delta + (code - e.code) * (e.handled + 1) }
  let done := label.foldl (fun (e : Encoding) c =>
    if c < code then { e with delta := e.delta + 1 }
    else if c == code then
      { e with
        letters := e.letters ++ deltaLetters e.bias 64 36 e.delta
        bias := nextBias e.delta (e.handled + 1) (e.handled == basic)
        delta := 0
        handled := e.handled + 1 }
    else e) start
  { done with delta := done.delta + 1, code := code + 1 }

/-- A label in ASCII letters: those it has, and then where the other characters stand between them. -/
def asciiLabel : Chars :=
  let codes := label.map toNat
  let basic := label.filter fun c => c.toNat < 128
  let others := (codes.filter (128 ≤ ·)).mergeSort.eraseDups
  let front := if basic.isEmpty then [] else basic ++ ['-']
  let e := others.foldl (encodeCode codes basic.length) ⟨128, 0, 72, basic.length, []⟩
  front ++ e.letters

def invalid {α : Type} (reason : String) : Result α := .error (.address reason)

/-- A character that may stand in the label of a host: a small letter, a mark or a digit in its normal form. -/
def isLabelChar : Bool := c == '-' || (c != '_' && isIdentifierPart c && normalForm [c] == [c])

def labelLimit : Nat := 63

def encodeLabel : Result Chars := do
  let refuse : Result Unit := invalid s!"Invalid IDNA hostname: {quoted host}"
  if label.isEmpty || !label.all isLabelChar || label.head? == some '-' || label.getLast? == some '-' then refuse
  let encoded := if label.all fun c => c.toNat < 128 then label else "xn--".toList ++ asciiLabel label
  if labelLimit < encoded.length then refuse
  return encoded

def isLabelDot : Bool := c == '.' || c.toNat == 0x3002 || c.toNat == 0xFF0E || c.toNat == 0xFF61

def encodeName : Result String := do
  let labels := piecesAt isLabelDot (lowered host).toList
  let dotted := labels.getLast? == some [] && 1 < labels.length
  let labels := if dotted then labels.dropLast else labels
  let parts ← labels.mapM (encodeLabel host)
  return ofList (List.intercalate ['.'] parts ++ (if dotted then ['.'] else []))

/-- Whether a text is digits with some more runs of digits behind single characters. -/
def isRuns (more : Nat) : Chars → Bool
  | [] => false
  | d :: rest =>
    d.isDigit && (isRuns more rest || match more, rest with
      | 0, r => r.isEmpty
      | n + 1, _ :: r => isRuns n r
      | _ + 1, [] => false)
termination_by s => s.length

def looksNumeric : Bool := isRuns 3 host.toList

def isNumeric : Bool :=
  let parts := cutAt "." host
  parts.length == 4 && parts.all fun p =>
    !p.isEmpty && p.length ≤ 3 && p.toList.all isDigit && !(1 < p.length && beginsWith "0" p)
      && decide ((Number.readInt? p).getD 256 < 256)

/-- Whether a text has the form of a long address: groups of digits between colons, one run of which may be left out. -/
def isLong : Bool :=
  let groups := cutAt ":" s
  let gaps := groups.tail.dropLast.countP (·.isEmpty)
  groups.all (fun g => g.length ≤ 4 && g.toList.all isHex) && 3 ≤ groups.length && gaps ≤ 1
    && (if gaps == 1 then groups.length ≤ 9 else groups.length == 8 && groups.all fun g => !g.isEmpty)

def plainHost : Result String :=
  if host == "" then .ok ""
  else if looksNumeric host then
    if isNumeric host then .ok host else invalid s!"Invalid IPv4 address: {quoted host}"
  else if beginsWith "[" host && finishesWith "]" host then
    let inner := dropLastChars 1 (dropChars 1 host)
    if isLong inner then .ok inner else invalid s!"Invalid IPv6 address: {quoted host}"
  else if host.toList.all fun c => c.toNat < 128 then .ok (escaped isHostChar (lowered host))
  else encodeName host

/-! ## Reading and writing -/

def standardPorts : List (String × Int) := [("ftp", 21), ("http", 80), ("https", 443), ("ws", 80), ("wss", 443)]

def plainPort (scheme : String) : Option String → Result (Option Int)
  | none | some "" => .ok none
  | some s =>
    match Number.readInt? s with
    | none => invalid s!"Invalid port: {quoted s}"
    | some n => .ok (if standardPorts.lookup scheme == some n then none else some n)

def plainPath (path : String) : String :=
  let parts := cutAt "/" path
  if parts.any fun p => p == "." || p == ".." then
    joinWith "/" (parts.foldl (fun acc p =>
      if p == "." then acc
      else if p == ".." then (if acc.isEmpty || acc == [""] then acc else acc.dropLast)
      else acc ++ [p]) [])
  else path

/-- Cuts an authority into the user, the host and the port. -/
def authorityParts : String × String × Option String :=
  let (user, rest) := match cutLast? "@" s with
    | some (u, r) => (u, r)
    | none => ("", s)
  let bracket? := if beginsWith "[" rest then (cutLast? "]" rest).map fun (a, b) => (a ++ "]", b) else none
  let (host, port) := match bracket? with
    | some p => p
    | none =>
      let cs := rest.toList
      let h := cs.takeWhile (· != ':')
      (ofList h, ofList (cs.drop h.length))
  (user, host, some (withoutLead ":" port))

def ofParts (scheme authority path : String) (query fragment : Option String) : Result Address := do
  let (user, host, port) := authorityParts authority
  let user := escaped isUserChar user
  let host ← plainHost host
  let port ← plainPort scheme port
  let scheme := lowered scheme
  let hasAuthority := user != "" || host != "" || port.isSome
  if hasAuthority && path != "" && !beginsWith "/" path then
    invalid "For absolute URLs, path must be empty or begin with '/'"
  if scheme == "" && !hasAuthority then
    if beginsWith "//" path then invalid "Relative URLs cannot have a path starting with '//'"
    if beginsWith ":" path then invalid "Relative URLs cannot have a path starting with ':'"
  let path := if scheme != "" || hasAuthority then plainPath path else path
  return ⟨scheme, user, host, port, escaped isPathChar path, query.map (escaped isQueryChar),
    fragment.map (escaped isFragmentChar)⟩

def takeScheme (cs : Chars) : Chars × Chars :=
  let front := match cs with
    | c :: _ => if c.isAlpha then cs.takeWhile fun c => c.isAlphanum || c == '+' || c == '.' || c == '-' else []
    | [] => []
  match cs.drop front.length with
  | ':' :: rest => (front, rest)
  | _ => ([], cs)

def lengthLimit : Nat := 65536

def read : Result Address := do
  let cs := s.toList
  if lengthLimit < cs.length then invalid "URL too long"
  match cs.find? fun c => c.toNat < 0x20 || c.toNat == 0x7F with
  | some c =>
    let i := (cs.takeWhile (· != c)).length
    invalid s!"Invalid non-printable ASCII character in URL, {quoted (String.singleton c)} at position {i}."
  | none =>
    let (scheme, rest) := takeScheme cs
    let (authority, rest) := match rest with
      | '/' :: '/' :: r =>
        let a := r.takeWhile fun c => c != '/' && c != '?' && c != '#'
        (a, r.drop a.length)
      | r => ([], r)
    let path := rest.takeWhile fun c => c != '?' && c != '#'
    let rest := rest.drop path.length
    let (query, rest) := match rest with
      | '?' :: r =>
        let q := r.takeWhile (· != '#')
        (some (ofList q), r.drop q.length)
      | r => (none, r)
    let fragment := match rest with
      | '#' :: r => some (ofList r)
      | _ => none
    ofParts (ofList scheme) (ofList authority) (ofList path) query fragment

def authority : String :=
  let host := if holds ":" a.host then "[" ++ a.host ++ "]" else a.host
  let port := match a.port with
    | some n => ":" ++ toString n
    | none => ""
  (if a.user == "" then "" else a.user ++ "@") ++ host ++ port

def toString : String :=
  let part (mark : String) (p : Option String) := (p.map (mark ++ ·)).getD ""
  (if a.scheme == "" then "" else a.scheme ++ ":")
    ++ (if a.authority == "" then "" else "//" ++ a.authority)
    ++ a.path ++ part "?" a.query ++ part "#" a.fragment

def target : String := (if a.path == "" then "/" else a.path) ++ ((a.query.map ("?" ++ ·)).getD "")

def withTarget (target : String) : Result Address :=
  let (path, query) := match cutOnce? "?" target with
    | some (p, q) => (p, some q)
    | none => (target, none)
  ofParts a.scheme a.authority path query a.fragment

def isComplete : Bool := a.scheme != "" && a.host != ""

/-- The address of a connection, which ends in a slash. -/
def base : Result Address := do
  let a ← read url
  if finishesWith "/" a.target then return a else a.withTarget (a.target ++ "/")

def below : Result Address := do
  let b ← read url
  if b.isComplete then return b
  a.withTarget (a.target ++ stripLeftOf '/' b.target)

/-- The proof of identity that the user of an address gives. -/
def credentials? : Option String :=
  let (name, password) := (cutOnce? ":" a.user).getD (a.user, "")
  if name == "" && password == "" then none
  else
    let bytes (s : String) : Bytes := utf8 (Utf8.decodeReplacing (unescapedBytes s.toList))
    some ("Basic " ++ Base64.encode (bytes name ++ 58 :: bytes password))

end Address

end PatchReview.Service
