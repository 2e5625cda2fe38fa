import LiveFeed.Failure
import LiveFeed.Network
import LiveFeed.Resource
import LiveFeed.Wire.Kind

/-!
# The client of the service

Typed requests below a base address.  Each carries the session token as a cookie, and each comes to a
value or to one of four errors: the status decides first, then whether the body arrives and can be
read.

* `Client.load`: reads a resource; `Client.currentAccount` and its neighbours: the other requests;
* `Call`, `Client.perform`: every request as a value, and what it came to on a network.
-/

namespace LiveFeed

/-- The cookie that carries the session token. -/
def tokenCookie : String := "token"

/-- A client of one service. -/
structure Client where
  base : Url
  token : Option String
  deriving DecidableEq, Repr

/-- The result of a call. -/
abbrev Outcome (α : Type) := Except RequestError α

namespace Client

/-- Whether a token may stand in a header: no control character but the tab. -/
def fitsHeader (token : String) : Bool :=
  token.toList.all fun c => c == '\t' || (0x20 ≤ c.toNat && c.toNat != 0x7F)

/-- A client below a base address. -/
def create (base : Url) (token : Option String) : Except Failure Client :=
  if token.all fitsHeader then .ok ⟨base, token⟩ else .error .badHeader

/-- The request of a path. -/
def request (c : Client) (method : Method) (path : String) (body : Option Json) : Request where
  method := method
  url := endpoint c.base path
  body := body.map Json.compact
  cookie := c.token.map fun t => tokenCookie ++ "=" ++ t

/-- The answer to a request, if its status says that all went well. -/
def accept (response : Option Response) : Outcome Response :=
  match response with
  | none => .error .other
  | some r => (RequestError.classify r.status).map fun _ => r

/-- Reads a body as JSON.  All of it has to be text, what the decoder skips included. -/
def readBody {α : Type} (codec : Wire.Codec α) (r : Response) : Outcome α :=
  match r.body.bind Text.decodeStrict? with
  | none => .error .other
  | some cs =>
    match (Json.read? (String.ofList cs)).bind codec.decode with
    | some a => .ok a
    | none => .error .other

/-- The text of octets, without the mark of byte order. -/
def plainText (octets : List Nat) : String :=
  let cs := Text.decodeLossy octets
  String.ofList (if cs.head? = some (Char.ofNat 0xFEFF) then cs.drop 1 else cs)

/-- Reads a body as text, without blanks around it.  Which text octets stand for is a matter of the
encoding that the headers of the response name. -/
def readTextBy (decode : List Nat → String) (r : Response) : Outcome String :=
  match r.body with
  | none => .error .other
  | some octets => .ok (Text.trim (decode octets))

/-- Asks for JSON. -/
def fetch {α : Type} (c : Client) (method : Method) (path : String) (body : Option Json)
    (codec : Wire.Codec α) (n : Network) : Outcome α × Network :=
  let (response, n) := n.ask (c.request method path body)
  ((accept response).bind (readBody codec), n)

/-- Asks for text in some encoding. -/
def fetchTextBy (c : Client) (decode : List Nat → String) (path : String) (n : Network) :
    Outcome String × Network :=
  let (response, n) := n.ask (c.request .get path none)
  ((accept response).bind (readTextBy decode), n)

/-- Asks for text in the usual encoding. -/
def fetchText (c : Client) (path : String) (n : Network) : Outcome String × Network :=
  c.fetchTextBy plainText path n

/-- Sends JSON and asks for nothing. -/
def send (c : Client) (path : String) (body : Json) (n : Network) : Outcome Unit × Network :=
  let (response, n) := n.ask (c.request .post path (some body))
  ((accept response).map fun _ => (), n)

/-! ## Calls -/

/-- The body that names a date. -/
def dateBody (date : String) : Json := Json.record [("date", .text date)]

/-- The body that rates the picture of a date. -/
def ratingBody (good : Bool) (date : String) : Json :=
  Json.record [("good", .bool good), ("date", .text date)]

/-- Whether anything is asked for a resource: a picture needs a date. -/
def asks (r : Resource) (date : Option String) : Bool :=
  r ≠ .apodImage || date.isSome

/-- Reads a resource.  The picture is that of a date; without one nothing is asked for. -/
def load (c : Client) (r : Resource) (date : Option String) (n : Network) :
    Option (Outcome r.Carrier) × Network :=
  if !asks r date then (none, n)
  else
    let (outcome, n) :=
      if r = .apodImage then c.fetch .post r.path (date.map dateBody) r.codec n
      else c.fetch .get r.path none r.codec n
    (some outcome, n)

/-- The path of an account's profile. -/
def accountPath (uuid : String) : String := "/account/general/info/" ++ uuid

/-- The path that tells the account of the token. -/
def uuidPath : String := "/account/general/uuid"

/-- The path that changes the settings. -/
def settingsPath : String := "/account/settings/update"

/-- The path that tells what is known about a picture. -/
def pictureInfoPath : String := "/services/apod/get_image_info"

/-- The path that rates a picture. -/
def ratingPath : String := "/services/apod/set_good"

/-- The profile of an account. -/
def accountInfo (c : Client) (uuid : String) (n : Network) : Outcome Wire.UserInfo × Network :=
  c.fetch .get (accountPath uuid) none Wire.UserInfo.codec n

/-- The profile of the token's account, which takes two requests, when the first answer comes in some
encoding. -/
def currentAccountBy (c : Client) (decode : List Nat → String) (n : Network) :
    Outcome Wire.UserInfo × Network :=
  match c.fetchTextBy decode uuidPath n with
  | (.ok uuid, n) => c.accountInfo uuid n
  | (.error e, n) => (.error e, n)

/-- The profile of the token's account. -/
def currentAccount (c : Client) (n : Network) : Outcome Wire.UserInfo × Network :=
  c.currentAccountBy plainText n

/-- What is known about the picture of a date; a picture that is gone is none. -/
def apodInfo (c : Client) (date : String) (n : Network) :
    Outcome (Option Wire.ApodData) × Network :=
  match c.fetch .post pictureInfoPath (some (dateBody date)) Wire.ApodData.codec n with
  | (.ok data, n) => (.ok (some data), n)
  | (.error .gone, n) => (.ok none, n)
  | (.error e, n) => (.error e, n)

/-- Rates the picture of a date. -/
def setApodGood (c : Client) (good : Bool) (date : String) (n : Network) :
    Outcome Unit × Network :=
  c.send ratingPath (ratingBody good date) n

/-- Changes the settings. -/
def updateSettings (c : Client) (s : Wire.Settings) (n : Network) : Outcome Unit × Network :=
  c.send settingsPath (Wire.Settings.codec.encode s) n

end Client

/-! ## Calls as values -/

/-- A request that the service knows. -/
inductive Call where
  | load (resource : Resource) (date : Option String)
  | updateSettings (settings : Wire.Settings)
  | accountUuid
  | accountInfo (uuid : String)
  | currentAccount
  | apodInfo (date : String)
  | setApodGood (good : Bool) (date : String)
  /-- Reads the text at a path. -/
  | text (path : String)
  /-- Reads a list of texts at a path. -/
  | texts (path : String)

/-- The JSON value of an outcome. -/
def Outcome.json {α : Type} (encode : α → Json) (outcome : Outcome α) : Outcome Json :=
  outcome.map encode

/-- What a call comes to, as a JSON value. -/
def Client.perform (c : Client) (n : Network) : Call → Outcome Json × Network
  | .load r date =>
    match c.load r date n with
    | (none, n) => (.ok .null, n)
    | (some outcome, n) => (outcome.json r.codec.encode, n)
  | .updateSettings s => (c.updateSettings s n).map (·.json fun _ => .null) id
  | .accountUuid => (c.fetchText uuidPath n).map (·.json .text) id
  | .accountInfo uuid => (c.accountInfo uuid n).map (·.json Wire.UserInfo.codec.encode) id
  | .currentAccount => (c.currentAccount n).map (·.json Wire.UserInfo.codec.encode) id
  | .apodInfo date =>
    (c.apodInfo date n).map (·.json fun d => (d.map Wire.ApodData.codec.encode).getD .null) id
  | .setApodGood good date => (c.setApodGood good date n).map (·.json fun _ => .null) id
  | .text path => (c.fetchText path n).map (·.json .text) id
  | .texts path =>
    (c.fetch .get path none (.list .string) n).map
      (·.json (Wire.Codec.list Wire.Codec.string).encode) id

end LiveFeed
