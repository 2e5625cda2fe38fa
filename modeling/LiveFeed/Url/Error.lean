/-!
# Address errors

Why a text is no web address.
-/

namespace LiveFeed

/-- Why a text is no web address. -/
inductive UrlError where
  | emptyHost
  | badDomain
  | badHostCharacter
  | badPort
  | badIpv4
  | badIpv6
  /-- There is no scheme, and nothing for the text to be relative to. -/
  | relative
  deriving DecidableEq, Repr

/-- The wording of an address error. -/
def UrlError.message : UrlError → String
  | .emptyHost => "empty host"
  | .badDomain => "invalid international domain name"
  | .badHostCharacter => "invalid domain character"
  | .badPort => "invalid port number"
  | .badIpv4 => "invalid IPv4 address"
  | .badIpv6 => "invalid IPv6 address"
  | .relative => "relative URL without a base"

end LiveFeed
