/-!
# Outcomes of requests

A request succeeds when the status lies in the two hundreds.  Three refusals are told apart; every
other trouble, of the service or on the way, is one.
-/

namespace LiveFeed

/-- Why a request gave no value. -/
inductive RequestError where
  | unauthorized
  | conflict
  /-- There was such a thing once, or never will be. -/
  | gone
  | other
  deriving DecidableEq, Repr

namespace RequestError

/-- The wording of a request error. -/
def message : RequestError → String
  | unauthorized => "unauthorized"
  | conflict => "conflict"
  | gone => "gone"
  | other => "request failed"

/-- What a status says. -/
def classify (status : Nat) : Except RequestError Unit :=
  if 200 ≤ status ∧ status < 300 then .ok ()
  else if status = 401 then .error unauthorized
  else if status = 409 then .error conflict
  else if status = 410 then .error gone
  else .error other

/-- Whether a number is a status at all. -/
def isStatus (n : Int) : Bool := 100 ≤ n && n ≤ 999

end RequestError

end LiveFeed
