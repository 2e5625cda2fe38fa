import LiveFeed.Url.Basic

/-!
# Reading web addresses

Reads an address by the rules of browsers, without a base: blanks around it are dropped, tabs and line
ends anywhere, the scheme decides how the rest is cut, and each part is normalised as it is read.

* `Url.read`: the address of a text, or why it is none.
-/

namespace LiveFeed.Url

/-- Whether a character is dropped at the ends of an address. -/
def isMargin (c : Char) : Bool := c.toNat ≤ 0x20

/-- Whether a character ends an authority. -/
def endsAuthority (special : Bool) (c : Char) : Bool :=
  c ∈ ['/', '?', '#'] || (special && c == '\\')

/-- Splits a list before the first element that satisfies `p`. -/
def cut (p : Char → Bool) (cs : List Char) : List Char × List Char :=
  (cs.takeWhile (!p ·), cs.dropWhile (!p ·))

/-- Splits a list at its last `@`. -/
def splitUser (cs : List Char) : Option (List Char × List Char) :=
  let tail := (cs.reverse.takeWhile (· != '@')).reverse
  if tail.length < cs.length then some (cs.take (cs.length - tail.length - 1), tail) else none

/-- Reads user information: the name, and the password behind the first colon. -/
def readUser (cs : List Char) : String × Option String :=
  let name := cs.takeWhile (· != ':')
  let pass := (cs.dropWhile (· != ':')).drop 1
  (String.ofList (percentEncode .userinfo name),
    if pass.isEmpty then none else some (String.ofList (percentEncode .userinfo pass)))

/-- Splits host and port at the first colon outside brackets. -/
def splitPort (bracketed : Bool) : List Char → List Char × List Char
  | [] => ([], [])
  | c :: r =>
    if c == ':' && !bracketed then ([], c :: r)
    else
      let (h, p) := splitPort (if c = '[' then true else if c = ']' then false else bracketed) r
      (c :: h, p)

/-- Reads a port behind its colon: the number, if digits stand there, and what follows them. -/
def readPort (cs : List Char) : Except UrlError (Option Nat × List Char) :=
  let (ds, rest) := cut (!·.isDigit) cs
  let n := ds.foldl (fun n c => n * 10 + (c.toNat - 48)) 0
  if 65535 < n then .error .badPort
  else
    match rest with
    | [] => .ok (if ds.isEmpty then none else some n, rest)
    | c :: _ => if c = '\\' then .ok (if ds.isEmpty then none else some n, rest) else .error .badPort

/-- Reads the host of an authority. -/
def readHost (special : Bool) (cs : List Char) (hasPort : Bool) : Except UrlError (Option Host) :=
  if cs.isEmpty then (if special || hasPort then .error .emptyHost else .ok none)
  else if special then (Host.readSpecial cs).map some
  else (Host.readPlain cs).map some

/-- Reads an authority; what follows its port goes to the path. -/
def readAuthority (scheme : String) (cs rest : List Char) :
    Except UrlError (Authority × List Char) := do
  let special := isSpecial scheme
  let (user, cs) ←
    match splitUser cs with
    | none => pure (("", none), cs)
    | some (user, tail) =>
      if user.isEmpty then
        if tail.isEmpty && !rest.isEmpty then .error .emptyHost else pure (("", none), tail)
      else pure (readUser user, tail)
  let (h, p) := splitPort false cs
  let host ← readHost special h (!p.isEmpty)
  let (port, tail) ← if p.isEmpty then pure (none, []) else readPort (p.drop 1)
  if host.isNone && (!user.1.isEmpty || user.2.isSome) then .error .emptyHost
  else
    pure (⟨user.1, user.2, host, if port = impliedPort scheme then none else port⟩, tail)

/-- Reads the query, behind its mark, up to the fragment. -/
def readQuery (scheme : String) : List Char → Option String × List Char
  | '?' :: r =>
    let (q, r) := cut (· == '#') r
    let set := if isSpecial scheme then EncodeSet.specialQuery else EncodeSet.query
    (some (String.ofList (percentEncode set q)), r)
  | cs => (none, cs)

/-- Reads the fragment behind its mark. -/
def readFragment : List Char → Option String
  | '#' :: r => some (String.ofList (percentEncode .fragment r))
  | _ => none

/-- Whether a character ends a path. -/
def endsPath (c : Char) : Bool := c == '?' || c == '#'

/-- Adds query and fragment to what is read already. -/
def finish (scheme : String) (authority : Option Authority) (path : Path) (rest : List Char) : Url :=
  let (query, rest) := readQuery scheme rest
  ⟨scheme, authority, path, query, readFragment rest⟩

/-- Reads a path of segments, then query and fragment. -/
def finishPath (scheme : String) (authority : Option Authority) (cs : List Char) : Url :=
  let (p, rest) := cut endsPath cs
  finish scheme authority (.segments (segmentsOf (pathStyle scheme) p)) rest

/-- Reads what follows `//`. -/
def readHierarchical (scheme : String) (cs : List Char) : Except UrlError Url := do
  let (a, rest) := cut (endsAuthority (isSpecial scheme)) cs
  let (authority, tail) ← readAuthority scheme a rest
  pure (finishPath scheme (some authority) (tail ++ rest))

/-- No host at all, as files have it. -/
def nobody : Authority := ⟨"", none, none, none⟩

/-- Reads the host of a file; the local one is not named. -/
def readFileHost (cs : List Char) : Except UrlError (Option Host) :=
  if cs.isEmpty then .ok none
  else
    match Host.readSpecial cs with
    | .ok h => .ok (if h = .domain "localhost" then none else some h)
    | .error e => .error e

/-- Reads the address of a file behind its scheme. -/
def readFile (cs : List Char) : Except UrlError Url :=
  let isSlash := PathStyle.file.isSlash
  match cs with
  | a :: b :: r =>
    if isSlash a && isSlash b then
      let (h, rest) := cut (endsAuthority true) r
      if isDrive h then .ok (finishPath "file" (some nobody) ('/' :: r))
      else
        match readFileHost h with
        | .error e => .error e
        | .ok host =>
          let u := finishPath "file" (some { nobody with host := host }) rest
          match u.path with
          | .segments (d :: _) =>
            .ok (if isUsualDrive d then { u with authority := some nobody } else u)
          | _ => .ok u
    else .ok (finishPath "file" (some nobody) cs)
  | cs => .ok (finishPath "file" (some nobody) cs)

/-- Reads what follows a scheme that is not special. -/
def readPlain (scheme : String) (cs : List Char) : Except UrlError Url :=
  match cs with
  | '/' :: '/' :: r => readHierarchical scheme r
  | '/' :: _ => .ok (finishPath scheme none cs)
  | cs =>
    let (p, rest) := cut endsPath cs
    .ok (finish scheme none (.text (percentEncode .controls p)) rest)

/-- Reads the scheme: its small letters and what follows its colon. -/
def readScheme (cs : List Char) : Option (String × List Char) :=
  let (s, rest) := cut (fun c => !(c.isAlphanum || c == '+' || c == '-' || c == '.')) cs
  match s, rest with
  | c :: _, ':' :: r => if c.isAlpha then some (String.ofList (s.map Char.toLower), r) else none
  | _, _ => none

/-- Reads an address from characters that hold nothing to skip. -/
def readChars (cs : List Char) : Except UrlError Url :=
  match readScheme cs with
  | none => .error .relative
  | some (scheme, rest) =>
    if scheme = "file" then readFile rest
    else if isSpecial scheme then
      readHierarchical scheme (rest.dropWhile fun c => c == '/' || c == '\\')
    else readPlain scheme rest

/-- Reads an address. -/
def read (s : String) : Except UrlError Url :=
  readChars ((Text.trimBy isMargin s.toList).filter (!isSkipped ·))

end LiveFeed.Url
