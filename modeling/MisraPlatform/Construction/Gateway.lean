import Mathlib.Algebra.Order.Ring.Rat
import MisraPlatform.Construction.DirectiveRules
import MisraPlatform.Library.SlidingWindow

/-
This file is the middleware in front of the application, with the rate limit and the authentication of its requests.
-/

namespace MisraPlatform

/-- These settings decide which requests pass. -/
structure GatewaySettings where
  authRequired : Bool := false
  oidcEnabled : Bool := false
  apiKeys : List String := []
  rateLimitRequests : Int := 200
  rateLimitWindowSeconds : Int := 60

structure HttpRequest where
  path : String
  clientHost : Option String := none
  apiKey : Option String := none
  authorization : Option String := none
  deriving DecidableEq

/-- The handlers tell these exceptions apart. -/
inductive Raised
  | jwtError (text : String)
  | httpError (text : String)
  | valueError (text : String)
  | other (text : String)
  deriving DecidableEq

/-- A claim of a token may be null. -/
abbrev Claims := List (String × Option Value)

structure AuthenticatedUser where
  userId : Option Value
  displayName : Option Value
  email : Option Value
  roles : Option Value
  authMethod : String

inductive Answer (Response : Type)
  | limited
  | unauthorized (detail : String)
  | application (response : Response)

/-- A request may reach the application without a user. -/
structure Outcome (Response : Type) where
  reached : Option (Option AuthenticatedUser)
  answer : Except Raised (Answer Response)

/-- The token library and the application behind the middleware come with the settings. -/
structure Application (Jwks Response : Type) where
  settings : GatewaySettings
  decode : Jwks → String → Except Raised Claims
  truthy : Jwks → Bool
  callNext : HttpRequest → Option AuthenticatedUser → Except Raised Response

section Application

variable {Jwks Response : Type} (app : Application Jwks Response)

namespace OidcAuthenticator

def developmentUser : AuthenticatedUser where
  userId := some (.text "dev-user")
  displayName := some (.text "Development User")
  email := none
  roles := some (.list [.text "reviewer", .text "admin"])
  authMethod := "disabled"

def serviceAccount : AuthenticatedUser where
  userId := some (.text "api-key")
  displayName := some (.text "CI Service Account")
  email := none
  roles := some (.list [.text "ci", .text "reviewer"])
  authMethod := "api_key"

/-- This is `payload.get(name, default)`. -/
def claim (payload : Claims) (name : String) (default : Option Value) : Option Value :=
  (payload.lookup name).getD default

def tokenUser (payload : Claims) : AuthenticatedUser where
  userId := claim payload "sub" (some (.text "unknown"))
  displayName := claim payload "name" (claim payload "preferred_username" (some (.text "User")))
  email := claim payload "email" none
  roles := claim payload "roles" (claim payload "groups" (some (.list [.text "reviewer"])))
  authMethod := "oidc"

/-- Only the errors of the token and of the connection become errors of the value. -/
def tokenError : Raised → Raised
  | .jwtError text => .valueError ("Invalid OIDC token: " ++ text)
  | .httpError text => .valueError ("Invalid OIDC token: " ++ text)
  | error => error

/-- The key set is the stored one or the answer to a request for it. -/
def validateBearerToken (jwks : Except Raised Jwks) (token : String) : Except Raised AuthenticatedUser :=
  match jwks >>= fun keys => app.decode keys token with
  | .ok payload => .ok (tokenUser payload)
  | .error error => .error (tokenError error)

/-- An empty key is no key. -/
def validateApiKey (settings : GatewaySettings) (apiKey : Option String) : Option AuthenticatedUser :=
  match apiKey with
  | some key => if key ≠ "" ∧ key ∈ settings.apiKeys then some serviceAccount else none
  | none => none

end OidcAuthenticator

namespace AuthMiddleware
open OidcAuthenticator

def publicPaths : List String :=
  ["/api/v1/health", "/api/v1/health/ready", "/metrics", "/docs", "/redoc", "/openapi.json"]

def bearerPrefix : String := "Bearer "

def bearerToken (request : HttpRequest) : Option String :=
  let header := (request.authorization.getD "").toList
  if bearerPrefix.toList.isPrefixOf header then some (strip (String.ofList (header.drop bearerPrefix.length)))
  else none

/-- A request goes on at once, or it waits for the key set. -/
inductive Progress (Response : Type)
  | done (outcome : Outcome Response)
  | fetching (token : String)

def respond (request : HttpRequest) (user : Option AuthenticatedUser) : Outcome Response where
  reached := some user
  answer := (app.callNext request user).map .application

/-- The handler stands around the call of the application too. -/
def guarded (outcome : Outcome Response) : Outcome Response :=
  match outcome.answer with
  | .error (.valueError text) => { outcome with answer := .ok (.unauthorized text) }
  | _ => outcome

def respondToToken (request : HttpRequest) (validated : Except Raised AuthenticatedUser) : Outcome Response :=
  match validated with
  | .ok user => guarded (respond app request (some user))
  | .error error => guarded ⟨none, .error error⟩

def dispatchToken (jwks : Option Jwks) (request : HttpRequest) (token : String) : Progress Response :=
  if app.settings.oidcEnabled then
    match jwks.filter app.truthy with
    | some keys => .done (respondToToken app request (validateBearerToken app (.ok keys) token))
    | none => .fetching token
  else .done (respondToToken app request (.ok developmentUser))

/-- The key set that is stored may be missing, or it may be empty. -/
def dispatch (jwks : Option Jwks) (request : HttpRequest) : Progress Response :=
  if request.path ∈ publicPaths ∨ app.settings.authRequired = false then .done (respond app request none)
  else
    match validateApiKey app.settings request.apiKey with
    | some user => .done (respond app request (some user))
    | none =>
        match bearerToken request with
        | some token => dispatchToken app jwks request token
        | none =>
            if app.settings.oidcEnabled then
              .done ⟨none, .ok (.unauthorized "Authentication required. Provide Bearer token or X-API-Key.")⟩
            else .done (respond app request (some developmentUser))

end AuthMiddleware

/-! ### Requests in flight -/

structure Arrival where
  time : Rat
  request : HttpRequest
  deriving DecidableEq

/-- A request waits for its turn behind the rate limit, or for the key set that it has asked for. -/
inductive Stage
  | admitted
  | fetching (token : String)

/-- The decisions of the limiter, the answers to the requests for a key set and the outcomes are kept in their order. -/
structure Gateway (Jwks Response : Type) where
  limiter : SlidingWindow.Limiter String Rat := .initial
  jwks : Option Jwks := none
  fetched : List (Except Raised Jwks) := []
  inFlight : List (Arrival × Stage) := []
  finished : List (Arrival × Outcome Response) := []

/-- Other requests make progress wherever one of them waits. -/
inductive GatewayEvent (Jwks : Type)
  | arrive (arrival : Arrival)
  | authenticate (index : Nat)
  | fetch (index : Nat) (outcome : Except Raised Jwks)

namespace RateLimitMiddleware

def host (request : HttpRequest) : String := request.clientHost.getD "unknown"

def exempt (request : HttpRequest) : Bool := "/health".toList.isSuffixOf request.path.toList

def window : Rat := app.settings.rateLimitWindowSeconds

def event (arrival : Arrival) : String × Rat := (host arrival.request, arrival.time)

def allows (limiter : SlidingWindow.Limiter String Rat) (arrival : Arrival) : Bool :=
  (SlidingWindow.offer (window app) app.settings.rateLimitRequests (limiter.queue (host arrival.request))
    arrival.time).1

end RateLimitMiddleware

namespace Gateway
open RateLimitMiddleware

variable (gateway : Gateway Jwks Response)

def arrive (arrival : Arrival) : Gateway Jwks Response :=
  if exempt arrival.request then { gateway with inFlight := gateway.inFlight ++ [(arrival, .admitted)] }
  else
    let limiter := gateway.limiter.step (window app) app.settings.rateLimitRequests (event arrival)
    if allows app gateway.limiter arrival then
      { gateway with limiter := limiter, inFlight := gateway.inFlight ++ [(arrival, .admitted)] }
    else
      { gateway with limiter := limiter, finished := gateway.finished ++ [(arrival, ⟨none, .ok .limited⟩)] }

def finish (index : Nat) (arrival : Arrival) (outcome : Outcome Response) : Gateway Jwks Response :=
  { gateway with inFlight := gateway.inFlight.eraseIdx index, finished := gateway.finished ++ [(arrival, outcome)] }

def authenticate (index : Nat) : Gateway Jwks Response :=
  match gateway.inFlight[index]? with
  | some (arrival, .admitted) =>
      match AuthMiddleware.dispatch app gateway.jwks arrival.request with
      | .done outcome => gateway.finish index arrival outcome
      | .fetching token => { gateway with inFlight := gateway.inFlight.set index (arrival, .fetching token) }
  | _ => gateway

/-- The key set is stored before the token is decoded, and an error leaves the stored one. -/
def store (outcome : Except Raised Jwks) : Gateway Jwks Response :=
  { gateway with jwks := outcome.toOption <|> gateway.jwks, fetched := gateway.fetched ++ [outcome] }

def fetch (index : Nat) (outcome : Except Raised Jwks) : Gateway Jwks Response :=
  match gateway.inFlight[index]? with
  | some (arrival, .fetching token) =>
      (gateway.store outcome).finish index arrival (AuthMiddleware.respondToToken app arrival.request
        (OidcAuthenticator.validateBearerToken app outcome token))
  | _ => gateway

def step : GatewayEvent Jwks → Gateway Jwks Response
  | .arrive arrival => gateway.arrive app arrival
  | .authenticate index => gateway.authenticate app index
  | .fetch index outcome => gateway.fetch app index outcome

def run (events : List (GatewayEvent Jwks)) : Gateway Jwks Response :=
  events.foldl (step app) gateway

end Gateway

end Application

end MisraPlatform
